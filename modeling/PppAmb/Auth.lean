import PppAmb.CNumber
import PppAmb.HttpClient
import PppAmb.JsonReader

/-!
# Tokens and Accounts

The authentication half of `components/esp_firebase/app.cpp`: the two requests that fetch
the refresh token and the auth token, and the calls that chain them. The result of
`Json::Reader::parse` is dropped everywhere, so whatever the reader has built is looked
into; a look that `jsoncpp` answers with an assertion stops the program, which is `none`
here.
-/

namespace PppAmb

section Operations

variable {σ : Type} (W : World σ)

/-- The body `getRefreshToken` posts. -/
def account_json (account : UserAccount) : Bytes :=
  ascii "\x7b\"email\":\"" ++ account.user_email ++ ascii "\", \"password\":\""
    ++ account.user_password ++ ascii "\", \"returnSecureToken\": true\x7d"

/-- The body `getAuthToken` posts. -/
def token_post_data (refresh_token : Bytes) : Bytes :=
  ascii "\x7b\"grant_type\": \"refresh_token\", \"refresh_token\":\"" ++ refresh_token
    ++ ascii "\"\x7d"

/-- What `getRefreshToken` takes out of a response: `data["refreshToken"].asString()`. -/
def refreshTokenOf (printReal : Bytes → Bytes) (text : Bytes) : Option Bytes := do
  let data ← parse text
  let (member, _) ← data.resolveReference (ascii "refreshToken")
  member.asString printReal

/-- `FirebaseApp::getRefreshToken`. -/
def getRefreshToken (s : App σ) (register_account : Bool) : Option (EspErr × App σ) :=
  let s := s.setHeader (ascii "content-type") (ascii "application/json")
  let (http_ret, s) := performRequest W s
    (if register_account then s.register_url else s.login_url) .post (account_json s.user_account)
  if http_ret.is200 then do
    let (text, s) := s.readBuffer
    let refresh_token ← refreshTokenOf W.printReal text
    some (ESP_OK, { s with refresh_token := refresh_token })
  else some (ESP_FAIL, s)

/-- What `getAuthToken` takes out of a response: the auth token and its life time. -/
def authTokenOf (printReal : Bytes → Bytes) (text : Bytes) : Option (Bytes × Int) := do
  let data ← parse text
  let (member, data) ← data.resolveReference (ascii "access_token")
  let auth_token ← member.asString printReal
  if ← data.isMember (ascii "expires_in") then do
    let (member, _) ← data.resolveReference (ascii "expires_in")
    pure (auth_token, atoi (← member.asCString))
  else if ← data.isMember (ascii "expiresIn") then do
    let (member, _) ← data.resolveReference (ascii "expiresIn")
    pure (auth_token, atoi (← member.asCString))
  else pure (auth_token, 3600)

/-- `FirebaseApp::getAuthToken`. -/
def getAuthToken (s : App σ) : Option (EspErr × App σ) :=
  let s := s.setHeader (ascii "content-type") (ascii "application/json")
  let (http_ret, s) := performRequest W s s.auth_url .post (token_post_data s.refresh_token)
  if http_ret.is200 then do
    let (text, s) := s.readBuffer
    let (auth_token, auth_expires_in) ← authTokenOf W.printReal text
    some (ESP_OK, { s with
      auth_token := auth_token
      auth_expires_in := auth_expires_in
      auth_obtained_time := W.time s.world })
  else some (ESP_FAIL, s)

/-- What `registerUserAccount` and `loginUserAccount` do: take over the account, fetch the
refresh token, then the auth token. -/
def signIn (s : App σ) (account : UserAccount) (register_account : Bool) :
    Option (EspErr × App σ) := do
  let (err, s) ← getRefreshToken W { s with user_account := account } register_account
  if err ≠ ESP_OK then some (ESP_FAIL, s)
  else
    let (err, s) ← getAuthToken W s.clearHTTPBuffer
    if err ≠ ESP_OK then some (ESP_FAIL, s) else some (ESP_OK, s.clearHTTPBuffer)

/-- `FirebaseApp::registerUserAccount`. -/
def registerUserAccount (s : App σ) (account : UserAccount) : Option (EspErr × App σ) :=
  signIn W s account true

/-- `FirebaseApp::loginUserAccount`. -/
def loginUserAccount (s : App σ) (account : UserAccount) : Option (EspErr × App σ) :=
  signIn W s account false

/-- `FirebaseApp::forceRefreshAuth`. -/
def forceRefreshAuth (s : App σ) : Option (EspErr × App σ) := do
  let (err, s) ← getAuthToken W s
  if err = ESP_OK then some (ESP_OK, s.clearHTTPBuffer)
  else loginUserAccount W s s.user_account

/-- `FirebaseApp::refreshAuthIfNeeded`. -/
def refreshAuthIfNeeded (s : App σ) : Option (EspErr × App σ) :=
  if s.auth_token.isEmpty then loginUserAccount W s s.user_account
  else if s.auth_expires_in ≤ 0 then some (ESP_OK, s)
  else
    let elapsed := W.time s.world - s.auth_obtained_time
    if s.auth_expires_in - elapsed < 30 then do
      let (err, s) ← getAuthToken W s
      if err = ESP_OK then some (ESP_OK, s.clearHTTPBuffer)
      else loginUserAccount W s s.user_account
    else some (ESP_OK, s)

end Operations

end PppAmb
