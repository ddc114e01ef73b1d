import PppAmb.CString

/-!
# The HTTP Client of `FirebaseApp`

This module models `components/esp_firebase/app.cpp` up to and including
`FirebaseApp::performRequest`: the event handler that collects a response body, the
long-lived client handle with its settings, and the loop of at most five attempts.

`esp_http_client` is not part of the repository. What it and the network do is the
parameter `World σ`: a state of the outside world together with the answer to each call
the code makes. An attempt (`esp_http_client_perform`) answers with the events it
delivers, its error code and status, and whether the connection is left open.

Two fields of `App` are bookkeeping that the program does not have: `sent` records every
attempt made with the settings it was made with and the auth token held at that moment,
`reads` records the array each time the code reads it as a C string.
-/

namespace PppAmb

/-- `esp_err_t`. -/
abbrev EspErr := Int

def ESP_OK : EspErr := 0

def ESP_FAIL : EspErr := -1

def ESP_ERR_INVALID_ARG : EspErr := 0x102

def ESP_ERR_TIMEOUT : EspErr := 0x107

/-- `esp_http_client_method_t`, the methods the code uses. -/
inductive Method
  | get
  | post
  | put
  | patch
  | delete
  deriving DecidableEq, Repr

/-- `HTTP_METHOD_POST`, `HTTP_METHOD_PUT` and `HTTP_METHOD_PATCH` carry a body. -/
def Method.hasBody : Method → Bool
  | .post | .put | .patch => true
  | .get | .delete => false

/-- `esp_http_client_event_t`: the event id with the data the handler looks at. -/
inductive HttpEvent
  | error
  | onConnected
  | headerSent
  | onHeader (header_key header_value : Bytes)
  | redirect
  | onFinish
  | onData (data : Bytes)
  | disconnected
  deriving DecidableEq, Repr

/-- `HTTP_RECV_BUFFER_SIZE`. -/
def HTTP_RECV_BUFFER_SIZE : ℕ := 16384

/-- The receive array together with the static fill counter of the event handler. -/
structure Recv where
  local_response_buffer : Bytes
  output_len : ℕ
  deriving DecidableEq

/-- `memset` of the whole array and reset of the counter: `clearHTTPBuffer`, and the
reaction to a new connection. -/
def Recv.cleared : Recv :=
  ⟨zeroed HTTP_RECV_BUFFER_SIZE, 0⟩

/-- `http_event_handler`. -/
def http_event_handler (r : Recv) : HttpEvent → Recv
  | .onConnected => Recv.cleared
  | .onFinish => { r with output_len := 0 }
  | .onData data =>
      if data.length > 0 then
        let capacity := HTTP_RECV_BUFFER_SIZE - 1
        let space := capacity - r.output_len
        if space > 0 then
          let to_copy := if data.length < space then data.length else space
          let output_len := r.output_len + to_copy
          ⟨(memcpy r.local_response_buffer r.output_len (data.take to_copy)).set output_len 0,
            output_len⟩
        else r
      else r
  | .error | .headerSent | .onHeader _ _ | .redirect | .disconnected => r

/-- The settings an `esp_http_client_handle_t` holds. `handler` says whether the event
handler and the receive array are installed in it, `connOpen` whether its connection
is open. -/
structure Client where
  url : Bytes
  method : Method
  post_field : Bytes
  headers : List (Bytes × Bytes)
  timeout_ms : Int
  handler : Bool
  connOpen : Bool
  deriving DecidableEq

/-- `esp_http_client_set_header`: a header is replaced if it is there, else added. -/
def Client.setHeader (c : Client) (header value : Bytes) : Client :=
  if c.headers.any (fun h => h.1 = header) then
    { c with headers := c.headers.map fun h => if h.1 = header then (header, value) else h }
  else { c with headers := c.headers ++ [(header, value)] }

/-- The handle `firebaseClientInit` asks for. -/
def Client.main : Client where
  url := ascii "https://google.com"
  method := .get
  post_field := []
  headers := []
  timeout_ms := 20000
  handler := true
  connOpen := false

/-- The handle `performRequest` asks for when there is none: its configuration names the
URL and the certificates, but neither the event handler nor the receive array. -/
def Client.fallback (url : Bytes) : Client where
  url := url
  method := .get
  post_field := []
  headers := []
  timeout_ms := 5000
  handler := false
  connOpen := false

/-- One `esp_http_client_perform`: the events it delivers, what it returns, the status
code the client then reports, and whether the connection is left open. -/
structure Attempt where
  events : List HttpEvent
  err : EspErr
  status_code : Int
  keepsOpen : Bool
  deriving DecidableEq

/-- The bytes an event brings. -/
def HttpEvent.data : HttpEvent → Bytes
  | .onData data => data
  | _ => []

/-- The body an attempt delivered. -/
def Attempt.body (a : Attempt) : Bytes :=
  (a.events.map HttpEvent.data).flatten

/-- `err == ESP_OK && status_code >= 200 && status_code < 300`. -/
def Attempt.succeeded (a : Attempt) : Bool :=
  a.err = ESP_OK ∧ a.status_code ≥ 200 ∧ a.status_code < 300

/-- The HTTP library and the network behind it, with state `σ`, and two services of the C
library: the clock, and the text `printf` gives for the number of a JSON token. The
Boolean answers say whether the call succeeded. -/
structure World (σ : Type) where
  init : σ → Bytes → Bool × σ
  setUrl : σ → Bytes → Bool × σ
  setMethod : σ → Method → Bool × σ
  setPostField : σ → Bytes → Bool × σ
  perform : σ → Client → Attempt × σ
  time : σ → Int
  printReal : Bytes → Bytes

/-- One entry of the record of attempts. -/
structure Exchange where
  client : Client
  auth_token : Bytes
  attempt : Attempt
  deriving DecidableEq

/-- `user_account_t`. -/
structure UserAccount where
  user_email : Bytes
  user_password : Bytes
  deriving DecidableEq

/-- The members of a `FirebaseApp` that requests read but never change: its URLs, its
tokens and the account they belong to. -/
structure Credentials where
  register_url : Bytes
  login_url : Bytes
  auth_url : Bytes
  refresh_token : Bytes
  auth_token : Bytes
  auth_obtained_time : Int
  auth_expires_in : Int
  default_timeout_ms : Int
  user_account : UserAccount
  deriving DecidableEq

/-- The state of a `FirebaseApp`, with the world it runs in. -/
structure App (σ : Type) extends Credentials where
  client : Option Client
  recv : Recv
  world : σ
  sent : List Exchange
  reads : List Bytes

/-- `http_ret_t`. -/
structure HttpRet where
  err : EspErr
  status_code : Int
  deriving DecidableEq, Repr

/-- `err == ESP_OK && status_code == 200`. -/
def HttpRet.is200 (r : HttpRet) : Bool :=
  r.err = ESP_OK ∧ r.status_code = 200

/-- `err == ESP_OK && status_code >= 200 && status_code < 300`. -/
def HttpRet.is2xx (r : HttpRet) : Bool :=
  r.err = ESP_OK ∧ r.status_code ≥ 200 ∧ r.status_code < 300

section Operations

variable {σ : Type} (W : World σ)

/-- `FirebaseApp::setHeader`. -/
def App.setHeader (s : App σ) (header value : Bytes) : App σ :=
  { s with client := s.client.map fun c => c.setHeader header value }

/-- `clearHTTPBuffer`. -/
def App.clearHTTPBuffer (s : App σ) : App σ :=
  { s with recv := Recv.cleared }

/-- `setHttpTimeoutMs`. -/
def App.setHttpTimeoutMs (s : App σ) (ms : Int) : App σ :=
  { s with client := s.client.map fun c => { c with timeout_ms := ms } }

/-- `restoreDefaultHttpTimeout`. -/
def App.restoreDefaultHttpTimeout (s : App σ) : App σ :=
  s.setHttpTimeoutMs s.default_timeout_ms

/-- The C string in `local_response_buffer`; the read is recorded. -/
def App.readBuffer (s : App σ) : Bytes × App σ :=
  (cString s.recv.local_response_buffer,
    { s with reads := s.reads ++ [s.recv.local_response_buffer] })

/-- The handle an attempt works with: a new one if there is none, else the present one
with its URL set. The result of `esp_http_client_set_url` is dropped. -/
def useClient (w : σ) (client : Option Client) (url : Bytes) : Option Client × σ :=
  match client with
  | none =>
      let (ok, w) := W.init w url
      (if ok then some (Client.fallback url) else none, w)
  | some c =>
      let (ok, w) := W.setUrl w url
      (some (if ok then { c with url := url } else c), w)

/-- `esp_http_client_set_method`; a failure is only logged. -/
def applyMethod (w : σ) (c : Client) (method : Method) : Client × σ :=
  let (ok, w) := W.setMethod w method
  (if ok then { c with method := method } else c, w)

/-- `esp_http_client_set_post_field`; a failure is at most logged. -/
def applyPostField (w : σ) (c : Client) (data : Bytes) : Client × σ :=
  let (ok, w) := W.setPostField w data
  (if ok then { c with post_field := data } else c, w)

/-- What the method calls for before an attempt: the body and its type, or an empty
body with its length forced to zero. -/
def applyBody (w : σ) (c : Client) (method : Method) (post_field : Bytes) : Client × σ :=
  if method.hasBody then
    let (c, w) := applyPostField W w c post_field
    (c.setHeader (ascii "content-type") (ascii "application/json"), w)
  else
    let (c, w) := applyPostField W w c []
    (c.setHeader (ascii "Content-Length") (ascii "0"), w)

/-- What is repeated between a failed attempt and the next one. -/
def prepareRetry (w : σ) (c : Client) (method : Method) : Client × σ :=
  if method.hasBody then
    (c.setHeader (ascii "content-type") (ascii "application/json"), w)
  else
    let (c, w) := applyPostField W w c []
    (c.setHeader (ascii "Content-Length") (ascii "0"), w)

/-- `esp_http_client_perform` with the settings `c`: the events reach the handler if it
is installed, and the attempt is recorded. -/
def App.perform (s : App σ) (c : Client) : Attempt × App σ :=
  let (a, w) := W.perform s.world c
  (a, { s with
    client := some { c with connOpen := a.keepsOpen }
    recv := if c.handler then a.events.foldl http_event_handler s.recv else s.recv
    world := w
    sent := s.sent ++ [⟨c, s.auth_token, a⟩] })

/-- `esp_http_client_close`. -/
def App.close (s : App σ) : App σ :=
  { s with client := s.client.map fun c => { c with connOpen := false } }

/-- The retry path of the loop: the response is logged and the body set up again. -/
def App.afterFailure (s : App σ) (method : Method) : App σ :=
  let s := s.readBuffer.2
  match s.client with
  | none => s
  | some c =>
      let (c, w) := prepareRetry W s.world c method
      { s with client := some c, world := w }

/-- The settings an attempt is made with: the handle, its method and its body. There is
no handle when `esp_http_client_init` fails. -/
def setUp (w : σ) (client : Option Client) (url : Bytes) (method : Method)
    (post_field : Bytes) : Option Client × σ :=
  match useClient W w client url with
  | (none, w) => (none, w)
  | (some c, w) =>
      let (c, w) := applyMethod W w c method
      let (c, w) := applyBody W w c method post_field
      (some c, w)

/-- The attempts of `performRequest` from one on, with the number that are left and the
values the local `err` and `status_code` have. -/
def requestLoop (url : Bytes) (method : Method) (post_field : Bytes) :
    ℕ → EspErr → Int → App σ → HttpRet × App σ
  | 0, err, status_code, s => (⟨err, status_code⟩, s)
  | n + 1, err, status_code, s =>
      match setUp W s.world s.client url method post_field with
      | (none, w) => (⟨err, status_code⟩, { s with world := w })
      | (some c, w) =>
          let (a, s) := ({ s with world := w } : App σ).perform W c
          if a.succeeded then
            (⟨a.err, a.status_code⟩, s.close)
          else
            requestLoop url method post_field n a.err a.status_code (s.afterFailure W method)

/-- `FirebaseApp::performRequest`. -/
def performRequest (s : App σ) (url : Bytes) (method : Method) (post_field : Bytes) :
    HttpRet × App σ :=
  requestLoop W url method post_field 5 ESP_FAIL (-1) s

/-- The constructor of `FirebaseApp`, with `firebaseClientInit`. The fresh array may hold
any bytes. -/
def App.new (api_key : Bytes) (local_response_buffer : Bytes) (w : σ) : App σ :=
  let (ok, w) := W.init w Client.main.url
  { client := if ok then some Client.main else none
    recv := ⟨local_response_buffer, 0⟩
    register_url := ascii "https://identitytoolkit.googleapis.com/v1/accounts:signUp?key=" ++ api_key
    login_url :=
      ascii "https://identitytoolkit.googleapis.com/v1/accounts:signInWithPassword?key=" ++ api_key
    auth_url := ascii "https://securetoken.googleapis.com/v1/token?key=" ++ api_key
    refresh_token := []
    auth_token := []
    auth_obtained_time := 0
    auth_expires_in := 0
    default_timeout_ms := 20000
    user_account := ⟨[], []⟩
    world := w
    sent := []
    reads := [] }

end Operations

end PppAmb
