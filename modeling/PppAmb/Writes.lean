import PppAmb.TrimBatch

/-!
# Writing to the Database

`putData`, `postData` and `patchData` make up to five attempts, sign in again after a 401 and make
up to five more. An attempt may be applied without being acknowledged. This module follows the two
rounds, with signing in between them.

What is assumed of the outside is collected in `SignsIn`, for the requests that sign in, and in
`Writes`, for the write: an attempt that carries it is applied or not, and a 200 means that it was
applied. Whether the setters hold at the first attempt of a round is a condition of its own,
`SendsAsCalled`.

## Main results

* `forceRefreshAuth_leavesDb`: signing in again leaves the database alone and sends `POST`
  requests only.
* `sendData_path`: the ways in which a write returns.
* `SignsIn.sent_le`: a write makes at most ten attempts of its own method.
* `Writes.put`: a write that has the same effect twice as once is all or nothing.
-/

namespace PppAmb

section SignIn

variable {σ δ : Type} {W : World σ} {db : σ → δ} {login_url auth_url : Bytes}

/-- **The requests that sign in** find the setters holding and leave the database alone, which
only attempts touch. -/
structure SignsIn (W : World σ) (db : σ → δ) (login_url auth_url : Bytes) : Prop
    extends OnlyAttempts W db where
  holds : ∀ w client url post_field, url = login_url ∨ url = auth_url →
    SettersHold W w client url .post post_field
  signIn : ∀ w c, c.method = .post → c.url = login_url ∨ c.url = auth_url →
    db (W.perform w c).2 = db w

/-- All setters succeed, and the requests that sign in leave the database alone. -/
structure KeepsDb (W : World σ) (db : σ → δ) (login_url auth_url : Bytes) : Prop
    extends Serves W db where
  signIn : ∀ w c, c.method = .post → c.url = login_url ∨ c.url = auth_url →
    db (W.perform w c).2 = db w

theorem KeepsDb.signsIn (h : KeepsDb W db login_url auth_url) :
    SignsIn W db login_url auth_url where
  toOnlyAttempts := h.onlyAttempts
  holds _ _ _ _ _ := h.settersHold _ _
  signIn := h.signIn

/-- What a call that signs in leaves behind: the same database and the same URLs, and more
`POST` requests. -/
structure LeavesDb (db : σ → δ) (s t : App σ) : Prop where
  same : db t.world = db s.world
  login_url : t.login_url = s.login_url
  auth_url : t.auth_url = s.auth_url
  sent : ∃ es, t.sent = s.sent ++ es ∧ ∀ e ∈ es, e.client.method = .post

theorem LeavesDb.of_eq {s t : App σ} (hworld : t.world = s.world)
    (hlogin : t.login_url = s.login_url) (hauth : t.auth_url = s.auth_url)
    (hsent : t.sent = s.sent) : LeavesDb db s t :=
  ⟨by rw [hworld], hlogin, hauth, [], by simp [hsent], by simp⟩

theorem LeavesDb.trans {s t u : App σ} (h : LeavesDb db s t) (h' : LeavesDb db t u) :
    LeavesDb db s u := by
  obtain ⟨es, hes, hpost⟩ := h.sent
  obtain ⟨es', hes', hpost'⟩ := h'.sent
  refine ⟨h'.same.trans h.same, h'.login_url.trans h.login_url, h'.auth_url.trans h.auth_url,
    es ++ es', by rw [hes', hes, List.append_assoc], fun e he => ?_⟩
  rcases List.mem_append.mp he with hmem | hmem
  · exact hpost e hmem
  · exact hpost' e hmem

/-- What was sent before a request, and what it sends. -/
theorem sent_performRequest (s : App σ) (url : Bytes) (method : Method) (post_field : Bytes) :
    (performRequest W s url method post_field).2.sent
      = s.sent ++ sentBy W s url method post_field := by
  obtain ⟨es, hes, -⟩ := requestLoop_sent (W := W) url method post_field 5 ESP_FAIL (-1) s
  rw [sentBy, performRequest, hes, List.drop_left]

/-- A request to one of the URLs that sign in. -/
theorem SignsIn.performRequest (h : SignsIn W db login_url auth_url) (s : App σ) {url : Bytes}
    (hurl : url = login_url ∨ url = auth_url) (post_field : Bytes) :
    LeavesDb db s (performRequest W s url .post post_field).2 := by
  have hcred := credentials_performRequest (W := W) s url .post post_field
  refine ⟨?_, congrArg Credentials.login_url hcred, congrArg Credentials.auth_url hcred,
    _, sent_performRequest s url .post post_field, fun e he => ?_⟩
  · refine (request_attempts h.toOnlyAttempts (S := fun t => t = db s.world) (R := fun _ _ => True)
      (fun w c hcarry hw => ⟨?_, fun _ => trivial⟩) (h.holds _ _ _ _ hurl) rfl).1
    rw [h.signIn w c hcarry.2.1 (by rw [hcarry.1]; exact hurl), hw]
  · exact (carries_of_settersHold (h.holds _ _ _ _ hurl) e he).2.1

/-- The header a request starts with. -/
abbrev App.asJson (s : App σ) : App σ :=
  s.setHeader (ascii "content-type") (ascii "application/json")

theorem LeavesDb.asJson (s : App σ) : LeavesDb db s s.asJson :=
  .of_eq rfl rfl rfl rfl

theorem getAuthToken_leavesDb {s t : App σ} {err : EspErr}
    (h : SignsIn W db s.login_url s.auth_url) (hret : getAuthToken W s = some (err, t)) :
    LeavesDb db s t := by
  have hreq : LeavesDb db s (performRequest W s.asJson s.asJson.auth_url .post
      (token_post_data s.asJson.refresh_token)).2 :=
    (LeavesDb.asJson s).trans (h.performRequest s.asJson (Or.inr rfl) _)
  simp only [getAuthToken] at hret
  generalize performRequest W s.asJson s.asJson.auth_url .post
    (token_post_data s.asJson.refresh_token) = r at hreq hret
  split at hret
  · simp only [Option.bind_eq_bind, Option.bind_eq_some_iff, Option.some.injEq,
      Prod.mk.injEq] at hret
    obtain ⟨⟨token, life⟩, -, -, rfl⟩ := hret
    exact hreq.trans (.of_eq rfl rfl rfl rfl)
  · simp only [Option.some.injEq, Prod.mk.injEq] at hret
    exact hret.2 ▸ hreq

theorem getRefreshToken_leavesDb {s t : App σ} {err : EspErr}
    (h : SignsIn W db s.login_url s.auth_url) (hret : getRefreshToken W s false = some (err, t)) :
    LeavesDb db s t := by
  have hreq : LeavesDb db s (performRequest W s.asJson s.asJson.login_url .post
      (account_json s.asJson.user_account)).2 :=
    (LeavesDb.asJson s).trans (h.performRequest s.asJson (Or.inl rfl) _)
  simp only [getRefreshToken, Bool.false_eq_true, if_false] at hret
  generalize performRequest W s.asJson s.asJson.login_url .post
    (account_json s.asJson.user_account) = r at hreq hret
  split at hret
  · simp only [Option.bind_eq_bind, Option.bind_eq_some_iff, Option.some.injEq,
      Prod.mk.injEq] at hret
    obtain ⟨token, -, -, rfl⟩ := hret
    exact hreq.trans (.of_eq rfl rfl rfl rfl)
  · simp only [Option.some.injEq, Prod.mk.injEq] at hret
    exact hret.2 ▸ hreq

/-- The requests that sign in keep their URLs, so the next one leaves the database alone too. -/
theorem SignsIn.next {s t : App σ} (h : SignsIn W db s.login_url s.auth_url)
    (hst : LeavesDb db s t) : SignsIn W db t.login_url t.auth_url := by
  rw [hst.login_url, hst.auth_url]
  exact h

theorem loginUserAccount_leavesDb {s t : App σ} {account : UserAccount} {err : EspErr}
    (h : SignsIn W db s.login_url s.auth_url)
    (hret : loginUserAccount W s account = some (err, t)) : LeavesDb db s t := by
  have haccount : LeavesDb db s { s with user_account := account } := .of_eq rfl rfl rfl rfl
  simp only [loginUserAccount, signIn, Option.bind_eq_bind, Option.bind_eq_some_iff] at hret
  obtain ⟨⟨err₁, s₁⟩, hrefresh, hret⟩ := hret
  have h₁ := haccount.trans (getRefreshToken_leavesDb (h.next haccount) hrefresh)
  dsimp only at hret
  split at hret
  · simp only [Option.some.injEq, Prod.mk.injEq] at hret
    exact hret.2 ▸ h₁
  · simp only [Option.bind_eq_some_iff] at hret
    obtain ⟨⟨err₂, s₂⟩, hauth, hret⟩ := hret
    have hclear : LeavesDb db s s₁.clearHTTPBuffer := h₁.trans (.of_eq rfl rfl rfl rfl)
    have h₂ := hclear.trans (getAuthToken_leavesDb (h.next hclear) hauth)
    dsimp only at hret
    split at hret
    · simp only [Option.some.injEq, Prod.mk.injEq] at hret
      exact hret.2 ▸ h₂
    · simp only [Option.some.injEq, Prod.mk.injEq] at hret
      exact hret.2 ▸ h₂.trans (.of_eq rfl rfl rfl rfl)

/-- **Signing in again** leaves the database alone. -/
theorem forceRefreshAuth_leavesDb {s t : App σ} {err : EspErr}
    (h : SignsIn W db s.login_url s.auth_url) (hret : forceRefreshAuth W s = some (err, t)) :
    LeavesDb db s t := by
  simp only [forceRefreshAuth, Option.bind_eq_bind, Option.bind_eq_some_iff] at hret
  obtain ⟨⟨err₁, s₁⟩, hauth, hret⟩ := hret
  have h₁ := getAuthToken_leavesDb h hauth
  dsimp only at hret
  split at hret
  · simp only [Option.some.injEq, Prod.mk.injEq] at hret
    exact hret.2 ▸ h₁.trans (.of_eq rfl rfl rfl rfl)
  · exact h₁.trans (loginUserAccount_leavesDb (h.next h₁) hret)

end SignIn

/-! ### The rounds of a write -/

section Rounds

variable {σ : Type} {W : World σ} {method : Method} {path json_str : CStr}

/-- One round of attempts. -/
def Rtdb.sendOnce (W : World σ) (method : Method) (d : Rtdb σ) (path json_str : CStr) :
    HttpRet × Rtdb σ :=
  (d.setHeader (ascii "content-type") (ascii "application/json")).performRequest W
    ((dataTarget d.base_database_url path).url d.app.auth_token) method json_str.bytes

/-- What a write reports of its last round. -/
def reported (ret : HttpRet) : EspErr :=
  if ret.is200 then ESP_OK else ESP_FAIL

theorem reported_eq_ok {ret : HttpRet} (h : reported ret = ESP_OK) : ret.is200 = true := by
  rw [reported] at h
  split at h
  · assumption
  · exact absurd h (by decide)

/-- The ways in which a write returns: after one round, or with the program stopped while it
signs in again, or after a second round. -/
inductive SendPath (W : World σ) (method : Method) (d : Rtdb σ) (path json_str : CStr) :
    Option EspErr → Rtdb σ → Prop
  | once {ret : HttpRet} {d₁ : Rtdb σ} (hfirst : d.sendOnce W method path json_str = (ret, d₁))
      (hend : ret.is200 = true ∨ ret.status_code ≠ 401) :
      SendPath W method d path json_str (some (reported ret)) d₁.clearHTTPBuffer
  | stopped {ret : HttpRet} {d₁ : Rtdb σ}
      (hfirst : d.sendOnce W method path json_str = (ret, d₁)) (hno : ret.is200 = false)
      (h401 : ret.status_code = 401) (hrenew : d₁.renew (forceRefreshAuth W) = none) :
      SendPath W method d path json_str none d₁
  | twice {ret ret' : HttpRet} {d₁ d₂ d₃ : Rtdb σ}
      (hfirst : d.sendOnce W method path json_str = (ret, d₁)) (hno : ret.is200 = false)
      (h401 : ret.status_code = 401) (hrenew : d₁.renew (forceRefreshAuth W) = some d₂)
      (hsecond : d₂.sendOnce W method path json_str = (ret', d₃)) :
      SendPath W method d path json_str (some (reported ret')) d₃.clearHTTPBuffer

theorem sendData_path {d d' : Rtdb σ} {r : Option EspErr}
    (hret : sendData W method d path json_str = (r, d')) :
    SendPath W method d path json_str r d' := by
  rcases hfirst : d.sendOnce W method path json_str with ⟨ret, d₁⟩
  have hfirst' := hfirst
  rw [Rtdb.sendOnce] at hfirst'
  simp only [sendData, hfirst'] at hret
  by_cases hagain : ¬ ret.is200 = true ∧ ret.status_code = 401
  · obtain ⟨hno, h401⟩ := hagain
    rw [if_pos ⟨hno, h401⟩] at hret
    have hno' : ret.is200 = false := by simpa using hno
    cases hrenew : d₁.renew (forceRefreshAuth W) with
    | none =>
        simp only [hrenew, Prod.mk.injEq] at hret
        obtain ⟨rfl, rfl⟩ := hret
        exact .stopped hfirst hno' h401 hrenew
    | some d₂ =>
        rcases hsecond : d₂.sendOnce W method path json_str with ⟨ret', d₃⟩
        have hsecond' := hsecond
        rw [Rtdb.sendOnce] at hsecond'
        simp only [hrenew, hsecond', Prod.mk.injEq] at hret
        obtain ⟨rfl, rfl⟩ := hret
        exact .twice hfirst hno' h401 hrenew hsecond
  · rw [if_neg hagain] at hret
    simp only [Prod.mk.injEq] at hret
    obtain ⟨rfl, rfl⟩ := hret
    refine .once hfirst ?_
    by_cases hok : ret.is200 = true
    · exact Or.inl hok
    · exact Or.inr fun h401 => hagain ⟨hok, h401⟩

/-- A write whose first round ends with a 401 reports what its second round returns. -/
theorem sendData_twice {ret ret' : HttpRet} {d d₁ d₂ d₃ : Rtdb σ}
    (hfirst : d.sendOnce W method path json_str = (ret, d₁)) (hno : ret.is200 = false)
    (h401 : ret.status_code = 401) (hrenew : d₁.renew (forceRefreshAuth W) = some d₂)
    (hsecond : d₂.sendOnce W method path json_str = (ret', d₃)) :
    sendData W method d path json_str = (some (reported ret'), d₃.clearHTTPBuffer) := by
  rw [Rtdb.sendOnce] at hfirst hsecond
  simp only [sendData, hfirst, hno, h401, Bool.false_eq_true, not_false_eq_true, and_self, if_true,
    hrenew, hsecond]
  rfl

/-- A write whose first round does not end with a 401 reports what it returns. -/
theorem sendData_once {ret : HttpRet} {d d₁ : Rtdb σ}
    (hfirst : d.sendOnce W method path json_str = (ret, d₁))
    (hend : ret.is200 = true ∨ ret.status_code ≠ 401) :
    sendData W method d path json_str = (some (reported ret), d₁.clearHTTPBuffer) := by
  have hagain : ¬ (¬ ret.is200 = true ∧ ret.status_code = 401) := by
    rintro ⟨hno, h401⟩
    exact hend.elim hno fun hne => hne h401
  rw [Rtdb.sendOnce] at hfirst
  simp only [sendData, hfirst]
  rw [if_neg hagain]
  rfl

/-! ### What is assumed of a write -/

/-- The setters hold at the first attempt of a round. -/
def Rtdb.SendHolds (W : World σ) (method : Method) (d : Rtdb σ) (path json_str : CStr) : Prop :=
  SettersHold W d.app.world
    (d.setHeader (ascii "content-type") (ascii "application/json")).app.client
    (cString ((dataTarget d.base_database_url path).url d.app.auth_token)) method json_str.bytes

/-- The setters hold in both rounds of a write. -/
structure SendsAsCalled (W : World σ) (method : Method) (d : Rtdb σ) (path json_str : CStr) :
    Prop where
  first : d.SendHolds W method path json_str
  second : ∀ {ret : HttpRet} {d₁ d₂ : Rtdb σ}, d.sendOnce W method path json_str = (ret, d₁) →
    ret.is200 = false → ret.status_code = 401 → d₁.renew (forceRefreshAuth W) = some d₂ →
      d₂.SendHolds W method path json_str

theorem Serves.sendsAsCalled {δ : Type} {db : σ → δ} (h : Serves W db) (d : Rtdb σ) :
    SendsAsCalled W method d path json_str :=
  ⟨h.settersHold _ _, fun _ _ _ _ => h.settersHold _ _⟩

/-- The members a round leaves alone. -/
theorem sendOnce_frame {d d' : Rtdb σ} {ret : HttpRet}
    (hsend : d.sendOnce W method path json_str = (ret, d')) :
    d'.base_database_url = d.base_database_url ∧ d'.app.login_url = d.app.login_url ∧
      d'.app.auth_url = d.app.auth_url := by
  obtain ⟨-, rfl⟩ := Prod.mk.inj hsend
  have hcred := credentials_performRequest (W := W)
    (d.setHeader (ascii "content-type") (ascii "application/json")).app
    (cString ((dataTarget d.base_database_url path).url d.app.auth_token)) method json_str.bytes
  exact ⟨rfl, congrArg Credentials.login_url hcred, congrArg Credentials.auth_url hcred⟩

/-- A round makes at most five attempts, all with its own method. -/
theorem Rtdb.SendHolds.sent {d d' : Rtdb σ} {ret : HttpRet}
    (h : d.SendHolds W method path json_str)
    (hsend : d.sendOnce W method path json_str = (ret, d')) :
    ∃ es, d'.app.sent = d.app.sent ++ es ∧ es.length ≤ 5 ∧ ∀ e ∈ es, e.client.method = method := by
  obtain ⟨-, rfl⟩ := Prod.mk.inj hsend
  refine ⟨_, sent_performRequest _ _ _ _, (performRequest_sent _ _ _ _).1, fun e he => ?_⟩
  exact (carries_of_settersHold h e he).2.1

end Rounds

section Contract

variable {σ δ : Type} {W : World σ} {db : σ → δ} {method : Method} {base path json_str : CStr}
  {effect : δ → δ} {login_url auth_url : Bytes}

/-- **What the database does with a write.** A request with the method and the JSON text, for the
node at the path, is applied or not, and a 200 says that it was applied. -/
structure Writes (W : World σ) (db : σ → δ) (method : Method) (base path json_str : CStr)
    (effect : δ → δ) (login_url auth_url : Bytes) : Prop
    extends SignsIn W db login_url auth_url where
  write : ∀ w c query, c.method = method → Names c.url base.bytes path.bytes query →
    c.post_field = json_str.bytes →
      (db (W.perform w c).2 = db w ∨ db (W.perform w c).2 = effect (db w)) ∧
        ((W.perform w c).1.err = ESP_OK → (W.perform w c).1.status_code = 200 →
          db (W.perform w c).2 = effect (db w))

/-- Signing in again, seen from the database client. -/
theorem SignsIn.renew {d d' : Rtdb σ} (h : SignsIn W db d.app.login_url d.app.auth_url)
    (hrenew : d.renew (forceRefreshAuth W) = some d') :
    LeavesDb db d.app d'.app ∧ d'.base_database_url = d.base_database_url := by
  simp only [Rtdb.renew, Option.map_eq_some_iff] at hrenew
  obtain ⟨⟨err, app⟩, hcall, rfl⟩ := hrenew
  exact ⟨forceRefreshAuth_leavesDb h hcall, rfl⟩

/-- A write leaves the URLs alone. -/
theorem SignsIn.frame {d d' : Rtdb σ} {r : Option EspErr}
    (h : SignsIn W db d.app.login_url d.app.auth_url)
    (hpath : SendPath W method d path json_str r d') :
    d'.base_database_url = d.base_database_url ∧ d'.app.login_url = d.app.login_url ∧
      d'.app.auth_url = d.app.auth_url := by
  cases hpath with
  | once hfirst _ =>
      have hframe := sendOnce_frame hfirst
      exact hframe
  | stopped hfirst _ _ _ => exact sendOnce_frame hfirst
  | @twice ret ret' d₁ d₂ d₃ hfirst _ _ hrenew hsecond =>
      obtain ⟨hbase₁, hlogin₁, hauth₁⟩ := sendOnce_frame hfirst
      rw [← hlogin₁, ← hauth₁] at h
      obtain ⟨hleaves, hbase₂⟩ := h.renew hrenew
      obtain ⟨hbase₃, hlogin₃, hauth₃⟩ := sendOnce_frame hsecond
      refine ⟨hbase₃.trans (hbase₂.trans hbase₁), ?_, ?_⟩
      · exact hlogin₃.trans (hleaves.login_url.trans hlogin₁)
      · exact hauth₃.trans (hleaves.auth_url.trans hauth₁)

/-- A write makes at most ten attempts of its own method, if signing in uses another one. -/
theorem SignsIn.sent_le {d d' : Rtdb σ} {r : Option EspErr} (hmethod : method ≠ .post)
    (h : SignsIn W db d.app.login_url d.app.auth_url)
    (hhold : SendsAsCalled W method d path json_str)
    (hpath : SendPath W method d path json_str r d') :
    ∃ es, d'.app.sent = d.app.sent ++ es ∧
      (es.filter fun e => e.client.method = method).length ≤ 10 := by
  cases hpath with
  | once hfirst _ =>
      obtain ⟨es, hes, hlen, -⟩ := hhold.first.sent hfirst
      exact ⟨es, hes, (List.length_filter_le _ es).trans (by omega)⟩
  | stopped hfirst _ _ _ =>
      obtain ⟨es, hes, hlen, -⟩ := hhold.first.sent hfirst
      exact ⟨es, hes, (List.length_filter_le _ es).trans (by omega)⟩
  | @twice ret ret' d₁ d₂ d₃ hfirst hno h401 hrenew hsecond =>
      obtain ⟨es, hes, hlen, -⟩ := hhold.first.sent hfirst
      obtain ⟨es', hes', hlen', -⟩ := (hhold.second hfirst hno h401 hrenew).sent hsecond
      obtain ⟨-, hlogin, hauth⟩ := sendOnce_frame hfirst
      rw [← hlogin, ← hauth] at h
      obtain ⟨mid, hmid, hpost⟩ := (h.renew hrenew).1.sent
      have hnone : mid.filter (fun e => e.client.method = method) = [] := by
        refine List.filter_eq_nil_iff.mpr fun e he => ?_
        rw [hpost e he, decide_eq_true_eq]
        exact hmethod.symm
      refine ⟨es ++ mid ++ es', ?_, ?_⟩
      · rw [Rtdb.clearHTTPBuffer, Rtdb.onApp, App.clearHTTPBuffer, hes', hmid, hes]
        simp only [List.append_assoc]
      · rw [List.filter_append, List.filter_append, hnone, List.append_nil, List.length_append]
        have hle := List.length_filter_le (fun e : Exchange => e.client.method = method) es
        have hle' := List.length_filter_le (fun e : Exchange => e.client.method = method) es'
        omega

/-! ### All or nothing -/

/-- A round of a `PUT`, when the database is as before or already written. -/
theorem Writes.put_round (hidem : ∀ t, effect (effect t) = effect t) {d d' : Rtdb σ} {ret : HttpRet}
    (h : Writes W db .put d.base_database_url path json_str effect login_url auth_url)
    (hhold : d.SendHolds W .put path json_str) {t : δ}
    (hd : db d.app.world = t ∨ db d.app.world = effect t)
    (hsend : d.sendOnce W .put path json_str = (ret, d')) :
    (db d'.app.world = t ∨ db d'.app.world = effect t) ∧
      (ret.is200 = true → db d'.app.world = effect t) := by
  obtain ⟨rfl, rfl⟩ := Prod.mk.inj hsend
  obtain ⟨token, hnames⟩ := names_dataTarget d.base_database_url path d.app.auth_token
  obtain ⟨hkeep, hdone⟩ := request_attempts h.toOnlyAttempts
    (S := fun u => u = t ∨ u = effect t) (R := fun u a => a.status_code = 200 → u = effect t)
    (fun w c hcarry hw => by
      have hsame : effect (db w) = effect t := by
        rcases hw with hw | hw
        · rw [hw]
        · rw [hw, hidem]
      obtain ⟨heither, h200⟩ := h.write w c _ hcarry.2.1 (hcarry.1 ▸ hnames) hcarry.2.2
      rw [hsame] at heither h200
      refine ⟨?_, fun hsucc hstatus => h200 ?_ hstatus⟩
      · rcases heither with hold | hnew
        · rwa [hold]
        · exact Or.inr hnew
      · simp only [Attempt.succeeded, decide_eq_true_eq] at hsucc
        exact hsucc.1) hhold hd
  refine ⟨hkeep, fun hok => ?_⟩
  obtain ⟨e, -, hstatus, hset⟩ := hdone (HttpRet.is2xx_of_is200 hok)
  simp only [HttpRet.is200, decide_eq_true_eq] at hok
  exact hset (hstatus ▸ hok.2)

/-- **`PUT` is all or nothing.** If the setters hold, a `PUT` is done or not, whatever becomes of
its attempts; and it is done if `ESP_OK` is returned. -/
theorem Writes.put {d d' : Rtdb σ} {r : Option EspErr} (hidem : ∀ t, effect (effect t) = effect t)
    (h : Writes W db .put d.base_database_url path json_str effect d.app.login_url d.app.auth_url)
    (hhold : SendsAsCalled W .put d path json_str)
    (hpath : SendPath W .put d path json_str r d') :
    (db d'.app.world = db d.app.world ∨ db d'.app.world = effect (db d.app.world)) ∧
      (r = some ESP_OK → db d'.app.world = effect (db d.app.world)) := by
  cases hpath with
  | once hfirst _ =>
      obtain ⟨hkeep, hdone⟩ := h.put_round hidem hhold.first (Or.inl rfl) hfirst
      exact ⟨hkeep, fun hok => hdone (reported_eq_ok (Option.some.inj hok))⟩
  | stopped hfirst _ _ _ =>
      exact ⟨(h.put_round hidem hhold.first (Or.inl rfl) hfirst).1, by simp⟩
  | @twice ret ret' d₁ d₂ d₃ hfirst hno h401 hrenew hsecond =>
      have hkeep := (h.put_round hidem hhold.first (Or.inl rfl) hfirst).1
      have hhold₂ := hhold.second hfirst hno h401 hrenew
      obtain ⟨hbase, hlogin, hauth⟩ := sendOnce_frame hfirst
      rw [← hbase, ← hlogin, ← hauth] at h
      obtain ⟨hleaves, hbase₂⟩ := h.toSignsIn.renew hrenew
      rw [← hleaves.same] at hkeep
      rw [← hbase₂] at h
      obtain ⟨hkeep', hdone⟩ := h.put_round hidem hhold₂ hkeep hsecond
      exact ⟨hkeep', fun hok => hdone (reported_eq_ok (Option.some.inj hok))⟩

end Contract

end PppAmb
