import PppAmb.Cpsi
import PppAmb.JsonStrings
import PppAmb.SensorTask

/-!
# The City of the Station

`modem_unwiredlabs_city_state` of `main/modem_ppp.c`, which asks a server for the city and the
state of the cell, with the step of `app_main` that makes `g_city_state` of them.

The server and the HTTP library are outside: for every attempt they answer with the events
of an `Attempt`, or there is no client for it. The arrays `city` and `state` are given by the C
strings they hold.
-/

namespace PppAmb

/-! ### The answer of the server -/

/-- `UL_BODY_MAX`. -/
def UL_BODY_MAX : ℕ := 4096

/-- `ul_accum_t`. -/
structure UlAccum where
  buf : Bytes
  max : ℕ
  len : ℕ

/-- `ul_http_evt`. -/
def ul_http_evt (acc : UlAccum) : HttpEvent → UlAccum
  | .onData data =>
      if data.length > 0 then
        let room := acc.max - acc.len - 1
        let n := if data.length < room then data.length else room
        if n > 0 then
          { acc with
            buf := (memcpy acc.buf acc.len (data.take n)).set (acc.len + n) 0
            len := acc.len + n }
        else acc
      else acc
  | .error | .onConnected | .headerSent | .onHeader _ _ | .redirect | .onFinish | .disconnected =>
      acc

/-- The accumulator behind the events of an attempt. -/
def UlAccum.collect (events : List HttpEvent) : UlAccum :=
  events.foldl ul_http_evt ⟨zeroed UL_BODY_MAX, UL_BODY_MAX, 0⟩

/-- `json_get_string` with an array of `outlen` bytes: what it then holds, or `none` for
`false`. -/
def json_get_string (json key : Bytes) (outlen : ℕ) : Option Bytes :=
  if outlen = 0 then none
  else
    let pat := snprintf (ascii "\"" ++ key ++ ascii "\":\"") 64
    match strstr pat json with
    | none => none
    | some p =>
        match cutAt (ch '"') (p.drop pat.length) with
        | none => none
        | some (value, _) => if value = [] then none else some (value.take (outlen - 1))

/-- `tolower` in the C locale. -/
def tolower (c : UInt8) : UInt8 :=
  if ch 'A' ≤ c ∧ c ≤ ch 'Z' then c + 32 else c

/-- `strcasecmp(s, t) == 0`. -/
def strcaseEq (s t : Bytes) : Bool :=
  s.map tolower = t.map tolower

/-- Where city and state are looked for. -/
def addressOf (ul_body : Bytes) : Bytes :=
  match strstr (ascii "\"address\"") ul_body with
  | some addr => addr
  | none =>
      match strstr (ascii "\"address_detail\"") ul_body with
      | some addr => addr
      | none => ul_body

/-! ### The request -/

/-- The arrays `city` and `state`. -/
structure Place where
  city : Bytes
  state : Bytes
  deriving DecidableEq

/-- Both arrays with a NUL in their first place. -/
def Place.empty : Place :=
  ⟨[], []⟩

/-- `(city && city[0]) || (state && state[0])`. -/
def Place.found (p : Place) : Bool :=
  p.city ≠ [] ∨ p.state ≠ []

/-- The payload of the request before it is cut. -/
def ulPayload (token : Bytes) (info : ModemUeInfo) : Bytes :=
  ascii "\x7b\"token\":\"" ++ token ++ ascii "\",\"radio\":\"lte\",\"mcc\":" ++ signed info.mcc
    ++ ascii ",\"mnc\":" ++ signed info.mnc ++ ascii ",\"cells\":[\x7b\"lac\":" ++ unsigned info.tac
    ++ ascii ",\"cid\":" ++ unsigned info.cell_id ++ ascii "\x7d],\"address\":2\x7d"

/-- The request succeeds, and its answer says `"status":"ok"`. -/
def Attempt.answered (a : Attempt) : Bool :=
  let acc := UlAccum.collect a.events
  let api_status := (json_get_string (cString acc.buf) (ascii "status") 8).getD []
  a.err = ESP_OK ∧ a.status_code = 200 ∧ acc.len > 0 ∧ strcaseEq api_status (ascii "ok")

/-- What an attempt makes of the arrays; an array stays as it is if its name is not found. -/
def Attempt.place (a : Attempt) (city_len state_len : ℕ) (p : Place) : Place :=
  if a.answered then
    let addr := addressOf (cString (UlAccum.collect a.events).buf)
    ⟨(json_get_string addr (ascii "city") city_len).getD p.city,
      (json_get_string addr (ascii "state") state_len).getD p.state⟩
  else p

/-- The attempts from one on, with the number that are left, `last_err` and the arrays. -/
def ulLoop (perform : ℕ → Option Attempt) (city_len state_len : ℕ) :
    ℕ → ℕ → EspErr → Place → EspErr × Place
  | 0, _, last_err, p => (if last_err ≠ ESP_OK then last_err else ESP_FAIL, p)
  | n + 1, attempt, last_err, p =>
      match perform attempt with
      | none => ulLoop perform city_len state_len n (attempt + 1) last_err p
      | some a =>
          let p := a.place city_len state_len p
          if a.answered ∧ p.found then (ESP_OK, p)
          else ulLoop perform city_len state_len n (attempt + 1) a.err p

/-- `modem_unwiredlabs_city_state`: the error code and the arrays. -/
def modem_unwiredlabs_city_state (token : Bytes) (ue : UeState)
    (perform : Bytes → ℕ → Option Attempt) (city_len state_len : ℕ) : EspErr × Place :=
  if ue.s_ue_valid = false then (ESP_FAIL, .empty)
  else if token = [] then (ESP_ERR_INVALID_ARG, .empty)
  else
    let payload := ulPayload token ue.s_ue_info
    if payload.length ≥ 256 then (ESP_FAIL, .empty)
    else ulLoop (perform payload) city_len state_len 5 1 ESP_FAIL .empty

/-! ### The text of the record -/

/-- What the loop of `build_city_hyphen` makes of a byte. -/
def hyphen (c : UInt8) : UInt8 :=
  if c = ch ',' ∨ c = ch ';' ∨ c = ch '|' then ch '-' else c

/-- `build_city_hyphen` for an array of `dstlen > 0` bytes. -/
def build_city_hyphen (dstlen : ℕ) (city state : Bytes) : Bytes :=
  let c := if city ≠ [] then city else ascii "----"
  let dst := if state ≠ [] then snprintf (c ++ ascii "-" ++ state) dstlen else snprintf c dstlen
  dst.map hyphen

/-- `sensors_set_city_state`: `g_city_state` afterwards. -/
def sensors_set_city_state (city_state : Bytes) : Bytes :=
  let len := if city_state.length ≥ 64 then 64 - 1 else city_state.length
  city_state.take len

/-- The third step of `app_main`: `g_city_state` afterwards. -/
def cityStep (token : Bytes) (ue : UeState) (perform : Bytes → ℕ → Option Attempt) : Bytes :=
  if token ≠ [] then
    let (err, p) := modem_unwiredlabs_city_state token ue perform 64 64
    if err = ESP_OK then sensors_set_city_state (build_city_hyphen 64 p.city p.state)
    else sensors_set_city_state (ascii "----")
  else sensors_set_city_state (ascii "----")

end PppAmb
