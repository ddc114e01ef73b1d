import PppAmb.Auth
import PppAmb.Wire

/-!
# The Realtime Database Client

`components/esp_firebase/rtdb.cpp`: the operations of `RTDB` on the app they share.

An operation may stop the program, in a call that signs in again or while it reads a
response. Its result is then `none`, together with the state before the call that
stopped. The field `requests` is bookkeeping that the program does not have: it records
the database requests put on the wire, apart from the requests that sign in.
-/

namespace PppAmb

/-- An `RTDB` with the app it works on. -/
structure Rtdb (σ : Type) where
  base_database_url : CStr
  app : App σ
  requests : List Exchange

section Operations

variable {σ : Type} (W : World σ)

/-- An operation on the members of the app. -/
def Rtdb.onApp (d : Rtdb σ) (f : App σ → App σ) : Rtdb σ :=
  { d with app := f d.app }

/-- `app->setHeader`. -/
def Rtdb.setHeader (d : Rtdb σ) (header value : Bytes) : Rtdb σ :=
  d.onApp fun s => s.setHeader header value

/-- `app->clearHTTPBuffer`. -/
def Rtdb.clearHTTPBuffer (d : Rtdb σ) : Rtdb σ :=
  d.onApp App.clearHTTPBuffer

/-- `app->performRequest(url.c_str(), ...)`: a database request. -/
def Rtdb.performRequest (d : Rtdb σ) (url : Bytes) (method : Method) (post_field : Bytes) :
    HttpRet × Rtdb σ :=
  let (http_ret, app) := PppAmb.performRequest W d.app (cString url) method post_field
  (http_ret, { d with
    app := app
    requests := d.requests ++ sentBy W d.app (cString url) method post_field })

/-- A call that signs in again; its error code is dropped by all callers. -/
def Rtdb.renew (d : Rtdb σ) (call : App σ → Option (EspErr × App σ)) : Option (Rtdb σ) :=
  (call d.app).map fun r => { d with app := r.2 }

/-- `reader.parse` of the response, followed by `clearHTTPBuffer`. -/
def Rtdb.parseResponse (d : Rtdb σ) : Option Value × Rtdb σ :=
  let (text, app) := d.app.readBuffer
  (parse text, ({ d with app := app } : Rtdb σ).clearHTTPBuffer)

/-! ### URLs -/

/-- A URL up to its auth token, and what follows the token. -/
structure Target where
  before : Bytes
  after : Bytes

/-- The URL with the given auth token. -/
def Target.url (t : Target) (auth_token : Bytes) : Bytes :=
  t.before ++ ascii "auth=" ++ auth_token ++ t.after

/-- `<base><path>.json?auth=<token>`. -/
def dataTarget (base_database_url path : CStr) : Target :=
  ⟨base_database_url.bytes ++ path.bytes ++ ascii ".json?", []⟩

/-- `<base><path>.json?writeSizeLimit=unlimited&auth=<token>`. -/
def deleteTarget (base_database_url path : CStr) : Target :=
  ⟨base_database_url.bytes ++ path.bytes ++ ascii ".json?writeSizeLimit=unlimited&", []⟩

/-- `<base><root>.json?shallow=true&auth=<token>`. -/
def shallowTarget (base_database_url root_path : CStr) : Target :=
  ⟨base_database_url.bytes ++ root_path.bytes ++ ascii ".json?shallow=true&", []⟩

/-- `<base><root>.json?orderBy=%22%24key%22&limitToFirst=<n>&auth=<token>`. -/
def listTarget (base_database_url root_path : CStr) (batch_size : Int) : Target :=
  ⟨base_database_url.bytes ++ root_path.bytes ++ ascii ".json?orderBy=%22%24key%22&limitToFirst="
    ++ ascii (toString batch_size) ++ ascii "&", []⟩

/-- `<base><root>.json?auth=<token>&print=silent`. -/
def patchTarget (base_database_url root_path : CStr) : Target :=
  ⟨base_database_url.bytes ++ root_path.bytes ++ ascii ".json?", ascii "&print=silent"⟩

/-- The child `days[i]` of `root_path`, passed on by `child.c_str()`. -/
def childPath (root_path : CStr) (day : Bytes) : CStr :=
  .of (root_path.bytes ++ ascii "/" ++ day)

/-! ### The operations -/

/-- `RTDB::getData`. The URL is built once, before the first request. -/
def getData (d : Rtdb σ) (path : CStr) : Option Value × Rtdb σ :=
  let url := (dataTarget d.base_database_url path).url d.app.auth_token
  let d := d.setHeader (ascii "content-type") (ascii "application/json")
  let (http_ret, d) := d.performRequest W url .get []
  if http_ret.is200 then d.parseResponse
  else
    match d.renew fun app => loginUserAccount W app app.user_account with
    | none => (none, d)
    | some d =>
        let d := d.setHeader (ascii "content-type") (ascii "application/json")
        let (http_ret, d) := d.performRequest W url .get []
        if http_ret.is200 then d.parseResponse
        else (some .nullValue, d.clearHTTPBuffer)

/-- What `putData`, `postData` and `patchData` do, each with its own method. -/
def sendData (method : Method) (d : Rtdb σ) (path json_str : CStr) : Option EspErr × Rtdb σ :=
  let finish (r : HttpRet × Rtdb σ) : Option EspErr × Rtdb σ :=
    (some (if r.1.is200 then ESP_OK else ESP_FAIL), r.2.clearHTTPBuffer)
  let url := (dataTarget d.base_database_url path).url d.app.auth_token
  let d := d.setHeader (ascii "content-type") (ascii "application/json")
  let (http_ret, d) := d.performRequest W url method json_str.bytes
  if ¬ http_ret.is200 ∧ http_ret.status_code = 401 then
    match d.renew (forceRefreshAuth W) with
    | none => (none, d)
    | some d =>
        let url := (dataTarget d.base_database_url path).url d.app.auth_token
        let d := d.setHeader (ascii "content-type") (ascii "application/json")
        finish (d.performRequest W url method json_str.bytes)
  else finish (http_ret, d)

/-- `RTDB::putData`. -/
def putData : Rtdb σ → CStr → CStr → Option EspErr × Rtdb σ :=
  sendData W .put

/-- `RTDB::postData`. -/
def postData : Rtdb σ → CStr → CStr → Option EspErr × Rtdb σ :=
  sendData W .post

/-- `RTDB::patchData`. -/
def patchData : Rtdb σ → CStr → CStr → Option EspErr × Rtdb σ :=
  sendData W .patch

/-- `LONG_TIMEOUT_MS`. -/
def LONG_TIMEOUT_MS : Int := 600000

/-- The headers of a `DELETE`. -/
def Rtdb.setDeleteHeaders (d : Rtdb σ) : Rtdb σ :=
  (d.setHeader (ascii "Content-Length") (ascii "0")).setHeader (ascii "Accept")
    (ascii "application/json")

/-- `RTDB::deleteData`. -/
def deleteData (d : Rtdb σ) (path : CStr) : Option EspErr × Rtdb σ :=
  let finish (r : HttpRet × Rtdb σ) : Option EspErr × Rtdb σ :=
    (some (if r.1.is2xx then ESP_OK else ESP_FAIL),
      (r.2.onApp App.restoreDefaultHttpTimeout).clearHTTPBuffer)
  let url := (deleteTarget d.base_database_url path).url d.app.auth_token
  let d := d.onApp fun s => s.setHttpTimeoutMs LONG_TIMEOUT_MS
  let d := d.setDeleteHeaders
  let (http_ret, d) := d.performRequest W url .delete []
  if ¬ http_ret.is2xx ∧ http_ret.status_code = 401 then
    match d.renew (forceRefreshAuth W) with
    | none => (none, d)
    | some d =>
        let url := (deleteTarget d.base_database_url path).url d.app.auth_token
        finish (d.setDeleteHeaders.performRequest W url .delete [])
  else finish (http_ret, d)

/-- The deletions of `trimDays`, one after the other. -/
def deleteDays (root_path : CStr) : List Bytes → Rtdb σ → Option EspErr × Rtdb σ
  | [], d => (some ESP_OK, d)
  | day :: days, d =>
      match deleteData W d (childPath root_path day) with
      | (none, d) => (none, d)
      | (some _, d) => deleteDays root_path days d

/-- `RTDB::trimDays`. -/
def trimDays (d : Rtdb σ) (root_path : CStr) (max_days : Int) : Option EspErr × Rtdb σ :=
  if max_days ≤ 0 then (some ESP_OK, d)
  else
    let url := (shallowTarget d.base_database_url root_path).url d.app.auth_token
    let d := d.setHeader (ascii "content-type") (ascii "application/json")
    let (http_ret, d) := d.performRequest W url .get []
    if ¬ http_ret.is200 then (some ESP_FAIL, d.clearHTTPBuffer)
    else
      match d.parseResponse with
      | (none, d) => (none, d)
      | (some days_obj, d) =>
          if ¬ days_obj.isObject then (some ESP_OK, d)
          else
            match days_obj.getMemberNames with
            | none => (none, d)
            | some days =>
                if (days.length : Int) ≤ max_days then (some ESP_OK, d)
                else
                  deleteDays W root_path
                    ((days.mergeSort fun a b => a ≤ b).take (days.length - max_days.toNat)) d

/-- The body that sets the given children to null. -/
def patch_body (keys : List Bytes) : Bytes :=
  ascii "\x7b" ++
    ((keys.map fun key => ascii "\"" ++ key ++ ascii "\":null").intersperse (ascii ",")).flatten
    ++ ascii "\x7d"

/-- `RTDB::trimOldestBatch`. -/
def trimOldestBatch (d : Rtdb σ) (root_path : CStr) (batch_size : Int) : Option Int × Rtdb σ :=
  if batch_size ≤ 0 then (some 0, d)
  else
    let list_url := (listTarget d.base_database_url root_path batch_size).url d.app.auth_token
    let d := d.setHeader (ascii "content-type") (ascii "application/json")
    let (get_ret, d) := d.performRequest W list_url .get []
    if ¬ get_ret.is200 then (some (-1), d.clearHTTPBuffer)
    else
      match d.parseResponse with
      | (none, d) => (none, d)
      | (some obj, d) =>
          if ¬ obj.isObject then (some 0, d)
          else
            match obj.getMemberNames with
            | none => (none, d)
            | some keys =>
                if keys.isEmpty then (some 0, d)
                else
                  let patch_url :=
                    (patchTarget d.base_database_url root_path).url d.app.auth_token
                  let d := d.setHeader (ascii "content-type") (ascii "application/json")
                  let (patch_ret, d) := d.performRequest W patch_url .patch (patch_body keys)
                  let d := d.clearHTTPBuffer
                  if ¬ patch_ret.is2xx then (some (-2), d) else (some keys.length, d)

end Operations

end PppAmb
