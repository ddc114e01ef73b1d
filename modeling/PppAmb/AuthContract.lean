import PppAmb.ClientInvariant

/-!
# The Contract of the Authentication Calls

`loginUserAccount`, `registerUserAccount` and `forceRefreshAuth` over every library and network
behind the app, with bodies of any bytes. What a call reads after an answer is the text in the
receive array; if the attempt has started clean, it is what was received of its body.

## Main results

* `refreshResult`, `authResult`: what each request makes of the text that it has left.
* `authContract_iff`: a call meets its contract exactly when each 200 answer that it gets has left
  a text with the members the code reads out of it, of the right kind.
* `login_stops_on_array`: the body `[]` stops the program.
-/

namespace PppAmb

/-! ### The contract -/

section Contract

variable {σ : Type}

/-- The body of the last answer with status 200. -/
def App.last200 (s : App σ) : Option Bytes :=
  (s.sent.reverse.find? fun e => e.attempt.err = ESP_OK ∧ e.attempt.status_code = 200).map
    fun e => e.attempt.body

/-- The string member of the JSON object a body holds. -/
def stringMember (key body : Bytes) : Option Bytes :=
  match parse body with
  | some (.objectValue members) =>
      match getMember key members with
      | some (.stringValue s) => some s
      | _ => none
  | _ => none

/-- **The contract** of an authentication call made in the state `s`: it does not stop the
program; it reports success only with a non-empty auth token that is the string member
`access_token` of the last 200 body; an error leaves the auth token with its times as it
was; and neither token is replaced by the empty string. -/
structure AuthContract (s : App σ) (result : Option (EspErr × App σ)) : Prop where
  noAbort : result ≠ none
  onSuccess : ∀ t, result = some (ESP_OK, t) → t.auth_token ≠ [] ∧
    ∃ body, t.last200 = some body ∧ stringMember (ascii "access_token") body = some t.auth_token
  onError : ∀ err t, result = some (err, t) → err ≠ ESP_OK →
    t.auth_token = s.auth_token ∧ t.auth_expires_in = s.auth_expires_in ∧
      t.auth_obtained_time = s.auth_obtained_time
  keepsRefresh : ∀ err t, result = some (err, t) → s.refresh_token ≠ [] → t.refresh_token ≠ []
  keepsAuth : ∀ err t, result = some (err, t) → s.auth_token ≠ [] → t.auth_token ≠ []

/-- The authentication calls. -/
inductive AuthCall
  | login (account : UserAccount)
  | register (account : UserAccount)
  | forceRefresh

def AuthCall.run (W : World σ) (s : App σ) : AuthCall → Option (EspErr × App σ)
  | .login account => loginUserAccount W s account
  | .register account => registerUserAccount W s account
  | .forceRefresh => forceRefreshAuth W s

end Contract

/-! ### The requests of a call -/

section Calls

variable {σ : Type} (W : World σ)

/-- The request for the refresh token. -/
def App.refreshRequest (s : App σ) (register_account : Bool) : HttpRet × App σ :=
  performRequest W s.asJson (if register_account then s.register_url else s.login_url) .post
    (account_json s.user_account)

/-- The request for the auth token. -/
def App.authRequest (s : App σ) : HttpRet × App σ :=
  performRequest W s.asJson s.auth_url .post (token_post_data s.refresh_token)

/-- A sign-in makes each of its requests in a state of this kind: `R` for the refresh token and,
if that was got, `A` for the auth token. -/
def SignInRequests (R : App σ → Bool → Prop) (A : App σ → Prop) (s : App σ) (account : UserAccount)
    (register_account : Bool) : Prop :=
  R { s with user_account := account } register_account ∧
    ∀ t, getRefreshToken W { s with user_account := account } register_account = some (ESP_OK, t) →
      A t.clearHTTPBuffer

/-- A call makes each of its requests in a state of this kind. -/
def AuthCall.Requests (R : App σ → Bool → Prop) (A : App σ → Prop) (s : App σ) : AuthCall → Prop
  | .login account => SignInRequests W R A s account false
  | .register account => SignInRequests W R A s account true
  | .forceRefresh =>
      A s ∧ ∀ t, getAuthToken W s = some (ESP_FAIL, t) → SignInRequests W R A t t.user_account false

end Calls

/-! ### The condition on the answers -/

/-- A text that is fit to answer the request for the refresh token: the value read from it
is null or an object, its member `refreshToken` is no array and no object, and its text is
not empty unless no refresh token was held before. -/
def RefreshTextOk (printReal : Bytes → Bytes) (held text : Bytes) : Prop :=
  ∃ data member rest token, parse text = some data ∧
    data.resolveReference (ascii "refreshToken") = some (member, rest) ∧
    member.asString printReal = some token ∧ (held ≠ [] → token ≠ [])

/-- The member is missing, or it is a string. -/
def StringOrMissing (key : Bytes) (members : List (Bytes × Value)) : Prop :=
  getMember key members = none ∨ ∃ s, getMember key members = some (.stringValue s)

/-- A text that is fit to answer the request for the auth token with the given body: the value
read from it is an object, the text of its member `access_token` is not empty and is the string
member of the body, and the life time, under whichever of its two names it is looked up, is a
string or missing. -/
def AuthTextOk (printReal : Bytes → Bytes) (text body : Bytes) : Prop :=
  ∃ members member token, parse text = some (.objectValue members) ∧
    getMember (ascii "access_token") members = some member ∧
    member.asString printReal = some token ∧ token ≠ [] ∧
    stringMember (ascii "access_token") body = some token ∧
    StringOrMissing (ascii "expires_in") members ∧
    (getMember (ascii "expires_in") members = none →
      StringOrMissing (ascii "expiresIn") members)

section Fit

variable {σ : Type}

/-- The text in the receive array. -/
def App.text (s : App σ) : Bytes :=
  cString s.recv.local_response_buffer

/-- The body of the last attempt. -/
def App.lastBody (s : App σ) : Bytes :=
  match s.sent.getLast? with
  | some e => e.attempt.body
  | none => []

/-- What was received of it. -/
def App.bodyReceived (s : App σ) : Bytes :=
  received s.lastBody

variable (W : World σ)

/-- If the request for the refresh token is answered with 200, the text that is read is fit. -/
def App.RefreshFit (read : App σ → Bytes) (s : App σ) (register_account : Bool) : Prop :=
  (s.refreshRequest W register_account).1.is200 = true →
    RefreshTextOk W.printReal s.refresh_token (read (s.refreshRequest W register_account).2)

/-- If the request for the auth token is answered with 200, the text that is read is fit. -/
def App.AuthFit (read : App σ → Bytes) (s : App σ) : Prop :=
  (s.authRequest W).1.is200 = true →
    AuthTextOk W.printReal (read (s.authRequest W).2) (s.authRequest W).2.lastBody

/-- The answers to all requests of a call, as far as they are 200, have left a fit text in the
array. -/
def AuthCall.Answered (s : App σ) (call : AuthCall) : Prop :=
  call.Requests W (App.RefreshFit W App.text) (App.AuthFit W App.text) s

/-- What is received of their bodies is fit. -/
def AuthCall.BodiesFit (s : App σ) (call : AuthCall) : Prop :=
  call.Requests W (App.RefreshFit W App.bodyReceived) (App.AuthFit W App.bodyReceived) s

/-- The successful attempts of a call start clean. -/
def AuthCall.Clean (s : App σ) (call : AuthCall) : Prop :=
  call.Requests W
    (fun s register_account => (ClientOp.request
      (if register_account then s.register_url else s.login_url) .post
      (account_json s.user_account)).Clean W s.asJson)
    (fun s => (ClientOp.request s.auth_url .post
      (token_post_data s.refresh_token)).Clean W s.asJson) s

end Fit

/-! ### One request -/

section Requests

variable {σ : Type} {W : World σ} {s : App σ}

/-- What the request for the refresh token makes of the text it has left. -/
inductive RefreshResult (W : World σ) (s : App σ) (register_account : Bool) :
    Option (EspErr × App σ) → Prop
  | failed (hno : (s.refreshRequest W register_account).1.is200 = false) :
      RefreshResult W s register_account
        (some (ESP_FAIL, (s.refreshRequest W register_account).2))
  | aborted (hyes : (s.refreshRequest W register_account).1.is200 = true)
      (htext : refreshTokenOf W.printReal (s.refreshRequest W register_account).2.text = none) :
      RefreshResult W s register_account none
  | taken {token : Bytes} (hyes : (s.refreshRequest W register_account).1.is200 = true)
      (htext : refreshTokenOf W.printReal (s.refreshRequest W register_account).2.text
        = some token) :
      RefreshResult W s register_account (some (ESP_OK,
        { (s.refreshRequest W register_account).2.readBuffer.2 with refresh_token := token }))

theorem refreshResult (W : World σ) (s : App σ) (register_account : Bool) :
    RefreshResult W s register_account (getRefreshToken W s register_account) := by
  have hget : getRefreshToken W s register_account
      = if (s.refreshRequest W register_account).1.is200 then do
          let token ← refreshTokenOf W.printReal (s.refreshRequest W register_account).2.text
          some (ESP_OK,
            { (s.refreshRequest W register_account).2.readBuffer.2 with refresh_token := token })
        else some (ESP_FAIL, (s.refreshRequest W register_account).2) := rfl
  rw [hget]
  cases hok : (s.refreshRequest W register_account).1.is200 with
  | false => exact .failed hok
  | true =>
      rw [if_pos rfl]
      cases htext : refreshTokenOf W.printReal (s.refreshRequest W register_account).2.text with
      | none => exact .aborted hok htext
      | some token => exact .taken hok htext

/-- What the request for the auth token makes of the text it has left. -/
inductive AuthResult (W : World σ) (s : App σ) : Option (EspErr × App σ) → Prop
  | failed (hno : (s.authRequest W).1.is200 = false) :
      AuthResult W s (some (ESP_FAIL, (s.authRequest W).2))
  | aborted (hyes : (s.authRequest W).1.is200 = true)
      (htext : authTokenOf W.printReal (s.authRequest W).2.text = none) : AuthResult W s none
  | taken {token : Bytes} {life : Int} (hyes : (s.authRequest W).1.is200 = true)
      (htext : authTokenOf W.printReal (s.authRequest W).2.text = some (token, life)) :
      AuthResult W s (some (ESP_OK, { (s.authRequest W).2.readBuffer.2 with
        auth_token := token
        auth_expires_in := life
        auth_obtained_time := W.time (s.authRequest W).2.world }))

theorem authResult (W : World σ) (s : App σ) : AuthResult W s (getAuthToken W s) := by
  have hget : getAuthToken W s
      = if (s.authRequest W).1.is200 then do
          let pair ← authTokenOf W.printReal (s.authRequest W).2.text
          some (ESP_OK, { (s.authRequest W).2.readBuffer.2 with
            auth_token := pair.1
            auth_expires_in := pair.2
            auth_obtained_time := W.time (s.authRequest W).2.world })
        else some (ESP_FAIL, (s.authRequest W).2) := rfl
  rw [hget]
  cases hok : (s.authRequest W).1.is200 with
  | false => exact .failed hok
  | true =>
      rw [if_pos rfl]
      cases htext : authTokenOf W.printReal (s.authRequest W).2.text with
      | none => exact .aborted hok htext
      | some pair => exact .taken hok htext

/-- The requests leave the tokens alone. -/
theorem credentials_refreshRequest (s : App σ) (register_account : Bool) :
    (s.refreshRequest W register_account).2.toCredentials = s.toCredentials :=
  credentials_performRequest ..

theorem credentials_authRequest (s : App σ) :
    (s.authRequest W).2.toCredentials = s.toCredentials :=
  credentials_performRequest ..

/-- The body of an answer with status 200 is the last such body. -/
theorem last200_of_is200 {url : Bytes} {method : Method} {post_field : Bytes}
    (h200 : (performRequest W s url method post_field).1.is200 = true) :
    (performRequest W s url method post_field).2.last200
      = some (performRequest W s url method post_field).2.lastBody := by
  refine requestLoop_rule
    (I := fun _ err status _ => (HttpRet.mk err status).is2xx = false)
    (Q := fun ret t => ret.is200 = true → t.last200 = some t.lastBody)
    ?_ ?_ ?_ ?_ 5 ESP_FAIL (-1) s rfl h200
  · intro err status s hno hyes
    exact absurd (HttpRet.is2xx_of_is200 hyes) (by simp [hno])
  · intro n err status s w hno _ hyes
    exact absurd (HttpRet.is2xx_of_is200 hyes) (by simp [hno])
  · intro n err status s c w _ _ _ hyes
    have hfit : (W.perform w c).1.err = ESP_OK ∧ (W.perform w c).1.status_code = 200 :=
      of_decide_eq_true hyes
    simp [App.last200, App.lastBody, App.perform, App.close, hfit]
  · exact fun _ _ _ _ _ _ _ _ hfail => hfail

/-! ### The texts that are taken out of a body -/

theorem refreshTextOk_iff {printReal : Bytes → Bytes} {held text : Bytes} :
    RefreshTextOk printReal held text ↔
      ∃ token, refreshTokenOf printReal text = some token ∧ (held ≠ [] → token ≠ []) := by
  constructor
  · rintro ⟨data, member, rest, token, hparse, hmem, htoken, hne⟩
    exact ⟨token, by simp [refreshTokenOf, hparse, hmem, htoken], hne⟩
  · rintro ⟨token, htoken, hne⟩
    simp only [refreshTokenOf, bind, Option.bind_eq_some_iff] at htoken
    obtain ⟨data, hparse, ⟨member, rest⟩, hmem, hstr⟩ := htoken
    exact ⟨data, member, rest, token, hparse, hmem, hstr, hne⟩

/-- The refresh token in a text is not emptied exactly when the text is fit. -/
theorem refreshTextOk_iff_of_token {printReal : Bytes → Bytes} {held token text : Bytes}
    (htoken : refreshTokenOf printReal text = some token) :
    RefreshTextOk printReal held text ↔ (held ≠ [] → token ≠ []) := by
  rw [refreshTextOk_iff, htoken]
  constructor
  · rintro ⟨token', h, hne⟩
    obtain rfl : token = token' := Option.some.inj h
    exact hne
  · exact fun hne => ⟨token, rfl, hne⟩

/-- Looking up a member that is there does not change the object. -/
theorem resolveReference_of_getMember {key : Bytes} {members : List (Bytes × Value)} {v : Value}
    (h : getMember key members = some v) :
    (Value.objectValue members).resolveReference key = some (v, .objectValue members) := by
  simp [Value.resolveReference, h]

/-- The life time that is looked up in a response. -/
def lifeTimeOf (data : Value) : Option Int := do
  if ← data.isMember (ascii "expires_in") then do
    let (member, _) ← data.resolveReference (ascii "expires_in")
    pure (atoi (← member.asCString))
  else if ← data.isMember (ascii "expiresIn") then do
    let (member, _) ← data.resolveReference (ascii "expiresIn")
    pure (atoi (← member.asCString))
  else pure 3600

/-- A token and a life time are taken out of a text one after the other. -/
theorem authTokenOf_eq_some {printReal : Bytes → Bytes} {text token : Bytes} {life : Int} :
    authTokenOf printReal text = some (token, life) ↔ ∃ data member rest,
      parse text = some data ∧
      data.resolveReference (ascii "access_token") = some (member, rest) ∧
      member.asString printReal = some token ∧ lifeTimeOf rest = some life := by
  have heq : authTokenOf printReal text = (parse text).bind fun data =>
      (data.resolveReference (ascii "access_token")).bind fun found =>
        (found.1.asString printReal).bind fun token =>
          (lifeTimeOf found.2).map fun life => (token, life) := by
    refine congrArg (Option.bind _) (funext fun data => congrArg (Option.bind _)
      (funext fun found => congrArg (Option.bind _) (funext fun token => ?_)))
    rw [lifeTimeOf]
    rcases found.2.isMember (ascii "expires_in") with _ | _ | _
    · rfl
    · rcases found.2.isMember (ascii "expiresIn") with _ | _ | _
      · rfl
      · rfl
      · simp [Option.map_bind]
    · simp [Option.map_bind]
  rw [heq]
  simp only [Option.bind_eq_some_iff, Option.map_eq_some_iff, Prod.exists, Prod.mk.injEq]
  constructor
  · rintro ⟨data, hparse, member, rest, hmem, _, hstr, _, hlife, rfl, rfl⟩
    exact ⟨data, member, rest, hparse, hmem, hstr, hlife⟩
  · rintro ⟨data, member, rest, hparse, hmem, hstr, hlife⟩
    exact ⟨data, hparse, member, rest, hmem, token, hstr, life, hlife, rfl, rfl⟩

/-- Only a string is looked up as a C string. -/
theorem asCString_isSome_iff {v : Value} : v.asCString.isSome = true ↔ ∃ s, v = .stringValue s := by
  cases v <;> simp [Value.asCString]

/-- The life time is read from an object that holds it, under whichever of its two names, as a
string or not at all. -/
theorem lifeTimeOf_isSome_iff {members : List (Bytes × Value)} :
    (lifeTimeOf (.objectValue members)).isSome = true ↔
      StringOrMissing (ascii "expires_in") members ∧
        (getMember (ascii "expires_in") members = none →
          StringOrMissing (ascii "expiresIn") members) := by
  have hfound : ∀ {key : Bytes} {v : Value}, getMember key members = some v →
      (StringOrMissing key members ↔ ∃ s, v = .stringValue s) := fun h => by
    simp [StringOrMissing, h]
  have hread : ∀ v : Value,
      (v.asCString.bind fun c => some (atoi c)).isSome = v.asCString.isSome := fun v => by
    cases v.asCString <;> rfl
  rw [lifeTimeOf]
  cases hexp : getMember (ascii "expires_in") members with
  | some v =>
      simp [Value.isMember, hexp, resolveReference_of_getMember hexp, hfound hexp,
        hread, ← asCString_isSome_iff]
  | none =>
      have hmissing : StringOrMissing (ascii "expires_in") members := Or.inl hexp
      cases hexp' : getMember (ascii "expiresIn") members with
      | some v =>
          simp [Value.isMember, hexp, hexp', hmissing, resolveReference_of_getMember hexp',
            hfound hexp', hread, ← asCString_isSome_iff]
      | none =>
          have hmissing' : StringOrMissing (ascii "expiresIn") members := Or.inl hexp'
          simp [Value.isMember, hexp, hexp', hmissing, hmissing']

/-- A token that is not empty is a member of an object. -/
theorem object_of_token {printReal : Bytes → Bytes} {data member rest : Value} {token : Bytes}
    (hmem : data.resolveReference (ascii "access_token") = some (member, rest))
    (hstr : member.asString printReal = some token) (hne : token ≠ []) :
    ∃ members, data = .objectValue members ∧ rest = .objectValue members ∧
      getMember (ascii "access_token") members = some member := by
  cases data with
  | objectValue members =>
      cases hget : getMember (ascii "access_token") members with
      | none =>
          simp only [Value.resolveReference, hget, Option.some.injEq, Prod.mk.injEq] at hmem
          obtain ⟨rfl, -⟩ := hmem
          exact absurd (Option.some.inj hstr).symm hne
      | some v =>
          rw [resolveReference_of_getMember hget, Option.some.injEq, Prod.mk.injEq] at hmem
          obtain ⟨rfl, rfl⟩ := hmem
          exact ⟨members, rfl, rfl, hget⟩
  | nullValue =>
      simp only [Value.resolveReference, Option.some.injEq, Prod.mk.injEq] at hmem
      obtain ⟨rfl, -⟩ := hmem
      exact absurd (Option.some.inj hstr).symm hne
  | _ => simp [Value.resolveReference] at hmem

/-- A text is fit for the auth token exactly when a non-empty token is taken out of it and
this token is the string member of the body. -/
theorem authTextOk_iff {printReal : Bytes → Bytes} {text body : Bytes} :
    AuthTextOk printReal text body ↔ ∃ token life,
      authTokenOf printReal text = some (token, life) ∧ token ≠ [] ∧
        stringMember (ascii "access_token") body = some token := by
  simp only [authTokenOf_eq_some]
  constructor
  · rintro ⟨members, member, token, hparse, hmem, hstr, hne, hbody, hexp, hexp'⟩
    obtain ⟨life, hlife⟩ :=
      Option.isSome_iff_exists.mp (lifeTimeOf_isSome_iff.mpr ⟨hexp, hexp'⟩)
    exact ⟨token, life, ⟨_, member, _, hparse, resolveReference_of_getMember hmem, hstr, hlife⟩,
      hne, hbody⟩
  · rintro ⟨token, life, ⟨data, member, rest, hparse, hmem, hstr, hlife⟩, hne, hbody⟩
    obtain ⟨members, rfl, rfl, hget⟩ := object_of_token hmem hstr hne
    obtain ⟨hexp, hexp'⟩ := lifeTimeOf_isSome_iff.mp (Option.isSome_of_eq_some hlife)
    exact ⟨members, member, token, hparse, hget, hstr, hne, hbody, hexp, hexp'⟩

/-- The same for the token that is taken out of the text. -/
theorem authTextOk_iff_of_token {printReal : Bytes → Bytes} {token text body : Bytes} {life : Int}
    (htoken : authTokenOf printReal text = some (token, life)) :
    AuthTextOk printReal text body ↔
      token ≠ [] ∧ stringMember (ascii "access_token") body = some token := by
  rw [authTextOk_iff, htoken]
  constructor
  · rintro ⟨token', life', h, hne, hmem⟩
    obtain ⟨rfl, -⟩ := Prod.mk.inj (Option.some.inj h)
    exact ⟨hne, hmem⟩
  · rintro ⟨hne, hmem⟩
    exact ⟨token, life, rfl, hne, hmem⟩

/-! ### Whole calls -/

/-- The contract looks at the state before the call only through its credentials. -/
theorem authContract_congr {t : App σ} {result : Option (EspErr × App σ)}
    (h : t.toCredentials = s.toCredentials) : AuthContract t result ↔ AuthContract s result := by
  have hauth : t.auth_token = s.auth_token := congrArg Credentials.auth_token h
  have hexp : t.auth_expires_in = s.auth_expires_in := congrArg Credentials.auth_expires_in h
  have htime : t.auth_obtained_time = s.auth_obtained_time :=
    congrArg Credentials.auth_obtained_time h
  have href : t.refresh_token = s.refresh_token := congrArg Credentials.refresh_token h
  constructor
  · rintro ⟨h₁, h₂, h₃, h₄, h₅⟩
    exact ⟨h₁, h₂, by rwa [← hauth, ← hexp, ← htime], by rwa [← href], by rwa [← hauth]⟩
  · rintro ⟨h₁, h₂, h₃, h₄, h₅⟩
    exact ⟨h₁, h₂, by rwa [hauth, hexp, htime], by rwa [href], by rwa [hauth]⟩

/-- What holds of the state that a call returns. -/
theorem forall_returned_iff {err : EspErr} {u : App σ} {P : App σ → Prop} :
    (∀ t, some (err, u) = some (err, t) → P t) ↔ P u :=
  ⟨fun h => h u rfl, fun h _ ht => (Prod.mk.inj (Option.some.inj ht)).2 ▸ h⟩

/-- A call that stops the program breaks its contract. -/
theorem not_authContract_none : ¬ AuthContract s none :=
  fun h => h.noAbort rfl

/-- A call that fails and has changed at most the refresh token and the account meets its
contract exactly when it has not emptied the refresh token. -/
theorem authContract_failed_iff {t : App σ} {refresh_token : Bytes} {account : UserAccount}
    (hcred : t.toCredentials =
      { s.toCredentials with refresh_token := refresh_token, user_account := account }) :
    AuthContract s (some (ESP_FAIL, t)) ↔ (s.refresh_token ≠ [] → refresh_token ≠ []) := by
  have hauth : t.auth_token = s.auth_token := by rw [hcred]
  have hexp : t.auth_expires_in = s.auth_expires_in := by rw [hcred]
  have htime : t.auth_obtained_time = s.auth_obtained_time := by rw [hcred]
  obtain rfl : t.refresh_token = refresh_token := by rw [hcred]
  constructor
  · exact fun h => h.keepsRefresh ESP_FAIL t rfl
  · intro hkeep
    refine ⟨by simp, ?_, ?_, ?_, ?_⟩
    · intro t' h
      obtain ⟨herr, -⟩ := Prod.mk.inj (Option.some.inj h)
      exact absurd herr (by decide)
    · rintro err t' h -
      obtain ⟨rfl, rfl⟩ := Prod.mk.inj (Option.some.inj h)
      exact ⟨hauth, hexp, htime⟩
    · intro err t' h
      obtain ⟨rfl, rfl⟩ := Prod.mk.inj (Option.some.inj h)
      exact hkeep
    · intro err t' h hne
      obtain ⟨rfl, rfl⟩ := Prod.mk.inj (Option.some.inj h)
      rwa [hauth]

/-- A call that succeeds meets its contract exactly when the new auth token is not empty
and is the string member of the last 200 body, and the refresh token is not emptied. -/
theorem authContract_ok_iff {t : App σ} {body : Bytes} (hlast : t.last200 = some body) :
    AuthContract s (some (ESP_OK, t)) ↔ t.auth_token ≠ [] ∧
      stringMember (ascii "access_token") body = some t.auth_token ∧
      (s.refresh_token ≠ [] → t.refresh_token ≠ []) := by
  constructor
  · intro h
    obtain ⟨hne, body', hbody', hmem⟩ := h.onSuccess t rfl
    rw [hlast, Option.some.injEq] at hbody'
    subst hbody'
    exact ⟨hne, hmem, h.keepsRefresh ESP_OK t rfl⟩
  · rintro ⟨hne, hmem, hkeep⟩
    refine ⟨by simp, ?_, ?_, ?_, ?_⟩
    · intro t' h
      obtain ⟨-, rfl⟩ := Prod.mk.inj (Option.some.inj h)
      exact ⟨hne, body, hlast, hmem⟩
    · intro err t' h herr
      obtain ⟨rfl, rfl⟩ := Prod.mk.inj (Option.some.inj h)
      exact absurd rfl herr
    · intro err t' h
      obtain ⟨rfl, rfl⟩ := Prod.mk.inj (Option.some.inj h)
      exact hkeep
    · intro err t' h _
      obtain ⟨rfl, rfl⟩ := Prod.mk.inj (Option.some.inj h)
      exact hne

/-- A call that has taken its auth token from a text meets its contract exactly when the text
is fit and the refresh token is not emptied. -/
theorem authContract_taken_iff {t : App σ} {token text body : Bytes} {life : Int}
    (htext : authTokenOf W.printReal text = some (token, life)) (htoken : t.auth_token = token)
    (hlast : t.last200 = some body) :
    AuthContract s (some (ESP_OK, t.clearHTTPBuffer)) ↔
      AuthTextOk W.printReal text body ∧ (s.refresh_token ≠ [] → t.refresh_token ≠ []) := by
  have hlast' : t.clearHTTPBuffer.last200 = some body := hlast
  have htoken' : t.clearHTTPBuffer.auth_token = token := htoken
  have hrefresh' : t.clearHTTPBuffer.refresh_token = t.refresh_token := rfl
  rw [authContract_ok_iff hlast', authTextOk_iff_of_token htext, htoken', hrefresh', and_assoc]

/-- **The contract of a sign-in**, under whichever of the two URLs it is made. -/
theorem authContract_signIn_iff (W : World σ) (s : App σ) (account : UserAccount)
    (register_account : Bool) :
    AuthContract s (signIn W s account register_account) ↔
      SignInRequests W (App.RefreshFit W App.text) (App.AuthFit W App.text) s account
        register_account := by
  set s₀ : App σ := { s with user_account := account } with hs₀
  have hfirst := refreshResult W s₀ register_account
  have hcred₁ := credentials_refreshRequest (W := W) s₀ register_account
  have hheld : s₀.refresh_token = s.refresh_token := rfl
  rw [signIn, SignInRequests, ← hs₀, App.RefreshFit, hheld]
  generalize getRefreshToken W s₀ register_account = first at hfirst ⊢
  cases hfirst with
  | failed hno =>
      refine iff_of_true ((authContract_failed_iff hcred₁).mpr id) ⟨fun hyes => ?_, fun t ht => ?_⟩
      · exact absurd (hyes.symm.trans hno) (by decide)
      · exact absurd (Prod.mk.inj (Option.some.inj ht)).1 (by decide)
  | aborted hyes htext =>
      refine iff_of_false not_authContract_none fun h => ?_
      obtain ⟨token, h', -⟩ := refreshTextOk_iff.mp (h.1 hyes)
      exact absurd (htext.symm.trans h') (by simp)
  | @taken token hyes htext =>
      set t : App σ :=
        { (s₀.refreshRequest W register_account).2.readBuffer.2 with
          refresh_token := token } with ht
      have hcred : t.toCredentials
          = { s.toCredentials with refresh_token := token, user_account := account } := by
        have hmid : t.toCredentials = { (s₀.refreshRequest W register_account).2.toCredentials with
            refresh_token := token } := rfl
        rw [hmid, hcred₁]
      have hsecond := authResult W t.clearHTTPBuffer
      have hcred₂ := (credentials_authRequest (W := W) t.clearHTTPBuffer).trans hcred
      rw [refreshTextOk_iff_of_token htext,
        forall_returned_iff (P := fun u => u.clearHTTPBuffer.AuthFit W App.text), App.AuthFit]
      simp only [Option.bind_eq_bind, Option.bind_some, ne_eq, not_true_eq_false, if_false,
        hyes, forall_const]
      generalize getAuthToken W t.clearHTTPBuffer = second at hsecond ⊢
      cases hsecond with
      | failed hno =>
          have hfailed : ¬ ESP_FAIL = ESP_OK := by decide
          simp only [Option.bind_some, hfailed, not_false_eq_true, if_true, hno,
            Bool.false_eq_true, false_imp_iff, and_true]
          exact authContract_failed_iff hcred₂
      | aborted hyes₂ htext₂ =>
          refine iff_of_false not_authContract_none fun h => ?_
          obtain ⟨_, _, h', -⟩ := authTextOk_iff.mp (h.2 hyes₂)
          exact absurd (htext₂.symm.trans h') (by simp)
      | @taken auth_token life hyes₂ htext₂ =>
          set u : App σ := { (t.clearHTTPBuffer.authRequest W).2.readBuffer.2 with
            auth_token := auth_token
            auth_expires_in := life
            auth_obtained_time := W.time (t.clearHTTPBuffer.authRequest W).2.world } with hu
          have hlast : u.last200 = some (t.clearHTTPBuffer.authRequest W).2.lastBody :=
            last200_of_is200 hyes₂
          have hrefresh : u.refresh_token = token := congrArg Credentials.refresh_token hcred₂
          simp only [Option.bind_some, not_true_eq_false, if_false, hyes₂, forall_const]
          rw [authContract_taken_iff (t := u) htext₂ rfl hlast, hrefresh, and_comm]

/-- **The contract of a call**, in terms of the texts that its requests leave. -/
theorem authContract_answered_iff (W : World σ) (s : App σ) (call : AuthCall) :
    AuthContract s (call.run W s) ↔ call.Answered W s := by
  cases call with
  | login account => exact authContract_signIn_iff W s account false
  | register account => exact authContract_signIn_iff W s account true
  | forceRefresh =>
      have hfirst := authResult W s
      have hcred := credentials_authRequest (W := W) s
      rw [AuthCall.run, AuthCall.Answered, AuthCall.Requests, forceRefreshAuth, App.AuthFit]
      generalize getAuthToken W s = first at hfirst ⊢
      cases hfirst with
      | failed hno =>
          have hfailed : ¬ ESP_FAIL = ESP_OK := by decide
          rw [forall_returned_iff (P := fun t => SignInRequests W _ _ t t.user_account false), hno]
          simp only [Option.bind_eq_bind, Option.bind_some, hfailed, if_false, Bool.false_eq_true,
            false_imp_iff, true_and]
          rw [← authContract_congr hcred]
          exact authContract_signIn_iff W _ _ false
      | aborted hyes htext =>
          refine iff_of_false not_authContract_none fun h => ?_
          obtain ⟨_, _, h', -⟩ := authTextOk_iff.mp (h.1 hyes)
          exact absurd (htext.symm.trans h') (by simp)
      | @taken auth_token life hyes htext =>
          set u : App σ := { (s.authRequest W).2.readBuffer.2 with
            auth_token := auth_token
            auth_expires_in := life
            auth_obtained_time := W.time (s.authRequest W).2.world } with hu
          have hlast : u.last200 = some (s.authRequest W).2.lastBody := last200_of_is200 hyes
          have hrefresh : (s.authRequest W).2.refresh_token = s.refresh_token :=
            congrArg Credentials.refresh_token hcred
          simp only [Option.bind_eq_bind, Option.bind_some, if_true, hyes, forall_const]
          rw [authContract_taken_iff (t := u) htext rfl hlast,
            show u.refresh_token = (s.authRequest W).2.refresh_token from rfl, hrefresh]
          refine and_congr_right fun _ => iff_of_true id fun t ht => ?_
          exact absurd (Prod.mk.inj (Option.some.inj ht)).1 (by decide)

end Requests

/-! ### Reachable states -/

/-- The states a `FirebaseApp` can get into: it is constructed, and then used by any calls in any
order. -/
inductive Reachable {σ : Type} (W : World σ) : App σ → Prop
  | new (api_key buf : Bytes) (w : σ) (hbuf : buf.length = HTTP_RECV_BUFFER_SIZE) :
      Reachable W (App.new W api_key buf w)
  | setHeader {s : App σ} (h : Reachable W s) (header value : Bytes) :
      Reachable W (s.setHeader header value)
  | setHttpTimeoutMs {s : App σ} (h : Reachable W s) (ms : Int) :
      Reachable W (s.setHttpTimeoutMs ms)
  | clearHTTPBuffer {s : App σ} (h : Reachable W s) : Reachable W s.clearHTTPBuffer
  | readBuffer {s : App σ} (h : Reachable W s) : Reachable W s.readBuffer.2
  | request {s : App σ} (h : Reachable W s) (url : Bytes) (method : Method) (post_field : Bytes) :
      Reachable W (performRequest W s url method post_field).2
  | auth {s t : App σ} (h : Reachable W s) (call : AuthCall) {err : EspErr}
      (hrun : call.run W s = some (err, t)) : Reachable W t

section Reach

variable {σ : Type} {W : World σ} {s : App σ}

/-- What an authentication call does, in any grade. -/
theorem Graded.run {R : ℕ → App σ → App σ → Prop} (h : Graded W R) (call : AuthCall)
    {err : EspErr} {t : App σ} (hrun : call.run W s = some (err, t)) : R 3 s t := by
  cases call with
  | login account => exact h.mono (h.signIn hrun) (by omega)
  | register account => exact h.mono (h.signIn hrun) (by omega)
  | forceRefresh => exact h.forceRefreshAuth hrun

/-- **The invariant rule of reachable states.** What the constructor establishes and the parts of
the operations keep holds in every reachable state. -/
theorem Reachable.rule {P : App σ → Prop} {R : ℕ → App σ → App σ → Prop} (h : GradedDeletes W R)
    (hkeep : ∀ {n s t}, R n s t → P s → P t)
    (hnew : ∀ api_key buf w, buf.length = HTTP_RECV_BUFFER_SIZE → P (App.new W api_key buf w))
    (hs : Reachable W s) : P s := by
  induction hs with
  | new api_key buf w hbuf => exact hnew api_key buf w hbuf
  | setHeader _ header value ih => exact hkeep (h.setHeader _ header value) ih
  | setHttpTimeoutMs _ ms ih => exact hkeep (h.setTimeout _ ms) ih
  | clearHTTPBuffer _ ih => exact hkeep (h.clear _) ih
  | @readBuffer s _ ih =>
      have hread : R 0 s s.readBuffer.2 := h.same ⟨rfl, rfl, rfl, rfl, rfl, rfl, rfl, rfl⟩
      exact hkeep hread ih
  | request _ url method post_field ih => exact hkeep (h.request _ url method post_field) ih
  | auth _ call hrun ih => exact hkeep (h.run call hrun) ih

/-- The receive array has its size. -/
def App.Sized (s : App σ) : Prop :=
  s.recv.local_response_buffer.length = HTTP_RECV_BUFFER_SIZE

theorem graded_sized (W : World σ) : GradedDeletes W fun _ s t => s.Sized → t.Sized where
  same h hs := by rwa [App.Sized, h.recv]
  trans h h' := h' ∘ h
  mono h _ := h
  request _ _ _ _ := length_performRequest_buffer
  setHeader _ _ _ := id
  clear _ _ := length_zeroed _
  setTimeout _ _ := id

theorem Reachable.sized (hs : Reachable W s) : s.Sized :=
  hs.rule (graded_sized W) (fun h => h) fun _ _ _ hbuf => hbuf

/-! ### Clean calls -/

/-- What is received of the body of a clean answer is the text it leaves. -/
theorem text_of_clean (horder : W.InOrder) {url : Bytes} {method : Method} {post_field : Bytes}
    (hs : s.Sized) (hclean : (ClientOp.request url method post_field).Clean W s)
    (h200 : (performRequest W s url method post_field).1.is200 = true) :
    (performRequest W s url method post_field).2.text
      = (performRequest W s url method post_field).2.bodyReceived := by
  obtain ⟨e, -, -, hlast, -, htext⟩ :=
    performRequest_received horder hs hclean (HttpRet.is2xx_of_is200 h200)
  rw [App.bodyReceived, App.lastBody, hlast]
  exact htext

variable {C R R' : App σ → Bool → Prop} {D A A' : App σ → Prop}

/-- Where the requests of a call are of one kind, two conditions on them that agree on that kind
agree on the call. -/
theorem SignInRequests.congr (hs : s.Sized) {account : UserAccount} {register_account : Bool}
    (hkind : SignInRequests W C D s account register_account)
    (hR : ∀ t, t.Sized → ∀ b, C t b → (R t b ↔ R' t b)) (hA : ∀ t, t.Sized → D t → (A t ↔ A' t)) :
    SignInRequests W R A s account register_account ↔
      SignInRequests W R' A' s account register_account := by
  have hs₀ : App.Sized { s with user_account := account } := hs
  refine and_congr (hR _ hs₀ _ hkind.1) (forall₂_congr fun t ht => ?_)
  exact hA _ (length_zeroed _) (hkind.2 t ht)

theorem AuthCall.requests_congr (hs : s.Sized) {call : AuthCall} (hkind : call.Requests W C D s)
    (hR : ∀ t, t.Sized → ∀ b, C t b → (R t b ↔ R' t b)) (hA : ∀ t, t.Sized → D t → (A t ↔ A' t)) :
    call.Requests W R A s ↔ call.Requests W R' A' s := by
  cases call with
  | login account => exact SignInRequests.congr hs hkind hR hA
  | register account => exact SignInRequests.congr hs hkind hR hA
  | forceRefresh =>
      refine and_congr (hA s hs hkind.1) (forall₂_congr fun t ht => ?_)
      have ht' : t.Sized := (graded_sized W).getAuthToken ht hs
      exact SignInRequests.congr ht' (hkind.2 t ht) hR hA

/-- If the successful attempts start clean, the texts are fit exactly when the bodies are. -/
theorem answered_iff_bodiesFit (horder : W.InOrder) (hs : s.Sized) {call : AuthCall}
    (hclean : call.Clean W s) : call.Answered W s ↔ call.BodiesFit W s := by
  refine AuthCall.requests_congr hs hclean (fun t ht b hc => ?_) fun t ht hc => ?_
  · refine forall_congr' fun h200 => ?_
    have htext : (t.refreshRequest W b).2.text = (t.refreshRequest W b).2.bodyReceived :=
      text_of_clean (s := t.asJson) horder ht hc h200
    rw [htext]
  · refine forall_congr' fun h200 => ?_
    have htext : (t.authRequest W).2.text = (t.authRequest W).2.bodyReceived :=
      text_of_clean (s := t.asJson) horder ht hc h200
    rw [htext]

/-- **The contract of the authentication calls.** Over every library and network and in every
reachable state: a call meets its contract if and only if each answer with status 200 that it
gets has left a fit text. If its successful attempts start clean, this means that what is
received of their bodies is fit. -/
theorem authContract_iff (W : World σ) (s : App σ) (hs : Reachable W s) (call : AuthCall) :
    (AuthContract s (call.run W s) ↔ call.Answered W s) ∧
      (W.InOrder → call.Clean W s → (AuthContract s (call.run W s) ↔ call.BodiesFit W s)) := by
  have hanswered := authContract_answered_iff W s call
  refine ⟨hanswered, fun horder hclean => ?_⟩
  exact hanswered.trans (answered_iff_bodiesFit horder hs.sized hclean)

/-- The calls of an idle app start clean, if the server closes the connections of attempts that
fail. -/
theorem App.Idle.callClean (hW : W.ClosesFailed) (horder : W.InOrder) (h : s.Idle)
    (call : AuthCall) : call.Clean W s := by
  have hgraded := graded_staysIdle hW
  have hrequest : ∀ {t : App σ}, t.Idle → ∀ url method post_field,
      (ClientOp.request url method post_field).Clean W t.asJson :=
    fun ht => ((hgraded.setHeader _ _ _).idle ht).clean hW horder
  have hsignIn : ∀ {t : App σ}, t.Idle → ∀ account register_account,
      SignInRequests W (fun s register_account => (ClientOp.request
        (if register_account then s.register_url else s.login_url) .post
        (account_json s.user_account)).Clean W s.asJson)
      (fun s => (ClientOp.request s.auth_url .post (token_post_data s.refresh_token)).Clean W
        s.asJson) t account register_account := by
    intro t ht account register_account
    have ht₀ : App.Idle { t with user_account := account } := ⟨⟨ht.handle, ht.size⟩, ht.closed⟩
    refine ⟨hrequest ht₀ _ _ _, fun u hu => hrequest ?_ _ _ _⟩
    exact (hgraded.clear u).idle ((hgraded.getRefreshToken hu).idle ht₀)
  cases call with
  | login account => exact hsignIn h account false
  | register account => exact hsignIn h account true
  | forceRefresh =>
      exact ⟨hrequest h _ _ _, fun t ht => hsignIn ((hgraded.getAuthToken ht).idle h) _ _⟩

end Reach

/-! ### Over a sequence of outcomes -/

section Answers

variable {A : Answers} {s : App ℕ}

theorem inOrder_answers (A : Answers) : A.world.InOrder :=
  fun _ _ => Attempt.legal_fresh _ _ _ _

theorem closesFailed_answers (A : Answers) : A.world.ClosesFailed :=
  ⟨fun _ _ => rfl, fun _ _ _ => rfl⟩

theorem Reachable.idle (hs : Reachable A.world s) : s.Idle := by
  refine hs.rule (graded_staysIdle (closesFailed_answers A)) StaysIdle.idle fun _ _ _ hbuf => ?_
  refine ⟨⟨⟨Client.main, rfl, rfl⟩, hbuf⟩, fun c hc => ?_⟩
  obtain rfl := Option.some.inj hc
  rfl

/-- The body of the last attempt is that of the outcome the request ends with. -/
theorem lastBody_answers {s : App ℕ} (hs : s.Ready) (url : Bytes) (method : Method)
    (post_field : Bytes) :
    (performRequest A.world s url method post_field).2.lastBody = (settle A 4 s.world).1.body := by
  obtain ⟨c, hlast⟩ := (performRequest_answers (A := A) hs url method post_field).last
  rw [App.lastBody, hlast]
  exact Attempt.body_fresh _ _ _

end Answers

/-- Answers that are all the same. -/
def Answers.always (o : Outcome) : Answers where
  outcome _ := o
  clock _ := 0
  printReal := id

/-- A body that is fit for both requests of a sign-in. -/
def tokensBody : Bytes :=
  ascii "\x7b\"refreshToken\":\"r\",\"access_token\":\"a\",\"expires_in\":\"3600\"\x7d"

/-- A login that is answered with both tokens meets its contract. -/
theorem authContract_iff_tokens :
    AuthContract
      (App.new (Answers.always ⟨ESP_OK, 200, tokensBody⟩).world (ascii "key")
        (zeroed HTTP_RECV_BUFFER_SIZE) 0)
      (AuthCall.run (Answers.always ⟨ESP_OK, 200, tokensBody⟩).world
        (App.new (Answers.always ⟨ESP_OK, 200, tokensBody⟩).world (ascii "key")
          (zeroed HTTP_RECV_BUFFER_SIZE) 0)
        (.login ⟨ascii "user", ascii "password"⟩)) := by
  set A := Answers.always ⟨ESP_OK, 200, tokensBody⟩ with hA
  set s := App.new A.world (ascii "key") (zeroed HTTP_RECV_BUFFER_SIZE) 0 with hnew
  have hs : Reachable A.world s := .new _ _ _ (length_zeroed _)
  have hidle : App.Idle { s with user_account := ⟨ascii "user", ascii "password"⟩ } :=
    ⟨⟨hs.idle.handle, hs.idle.size⟩, hs.idle.closed⟩
  have hgraded := graded_staysIdle (closesFailed_answers A)
  have hbody : ∀ {t : App ℕ}, t.Idle → ∀ url post_field,
      (performRequest A.world t.asJson url .post post_field).2.lastBody = tokensBody :=
    fun ht url post_field => lastBody_answers (ht.toReady.setHeader _ _) url .post post_field
  refine ((authContract_iff A.world s hs _).2 (inOrder_answers A)
    (hs.idle.callClean (closesFailed_answers A) (inOrder_answers A) _)).mpr
    ⟨fun _ => ?_, fun t ht _ => ?_⟩
  · rw [App.bodyReceived, App.refreshRequest, hbody hidle]
    exact refreshTextOk_iff.mpr ⟨ascii "r", by decide +kernel, fun _ => by decide⟩
  · have ht' := (hgraded.clear t).idle ((hgraded.getRefreshToken ht).idle hidle)
    rw [App.bodyReceived, App.authRequest, hbody ht']
    exact authTextOk_iff.mpr ⟨ascii "a", 3600, by decide +kernel, by decide, by decide +kernel⟩

/-- **A login answered with an array stops the program.** -/
theorem login_stops_on_array :
    ¬ ∀ (A : Answers) (s : App ℕ), Reachable A.world s → ∀ call : AuthCall,
      AuthContract s (call.run A.world s) := by
  intro h
  have hcall := h (.always ⟨ESP_OK, 200, ascii "[]"⟩) _
    (.new (ascii "key") (zeroed HTTP_RECV_BUFFER_SIZE) 0 (length_zeroed _))
    (.login ⟨ascii "user", ascii "password"⟩)
  exact hcall.noAbort rfl

end PppAmb
