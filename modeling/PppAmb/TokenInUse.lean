import PppAmb.AuthContract

/-!
# The Token a Database Request Carries

An operation of `RTDB` builds its URLs itself, and a token may be replaced in the middle
of it. This module says under which token each of its requests goes on the wire.

## Main results

* `InUse.performRequest`: a request whose URL is built from the token held keeps the law.
* `requests_carry_token_iff`: every database request carries the token the app holds when
  it is sent, unless `getData` signs in again and gets another token.
* `getData_resends_old_token`: the request of `getData` after a new login carries the
  token that was just replaced.
-/

namespace PppAmb

/-- The operations of `RTDB`. -/
inductive DbOp
  | getData (path : CStr)
  | putData (path json_str : CStr)
  | postData (path json_str : CStr)
  | patchData (path json_str : CStr)
  | deleteData (path : CStr)
  | trimDays (root_path : CStr) (max_days : Int)
  | trimOldestBatch (root_path : CStr) (batch_size : Int)

/-- The state an operation ends in. -/
def DbOp.run {σ : Type} (W : World σ) (d : Rtdb σ) : DbOp → Rtdb σ
  | .getData path => (PppAmb.getData W d path).2
  | .putData path json_str => (PppAmb.putData W d path json_str).2
  | .postData path json_str => (PppAmb.postData W d path json_str).2
  | .patchData path json_str => (PppAmb.patchData W d path json_str).2
  | .deleteData path => (PppAmb.deleteData W d path).2
  | .trimDays root_path max_days => (PppAmb.trimDays W d root_path max_days).2
  | .trimOldestBatch root_path batch_size => (PppAmb.trimOldestBatch W d root_path batch_size).2

/-- The database requests an operation puts on the wire. -/
def DbOp.requests {σ : Type} (W : World σ) (d : Rtdb σ) (op : DbOp) : List Exchange :=
  (op.run W d).requests.drop d.requests.length

/-- The URLs an operation works with, up to the token. -/
def DbOp.Targets (base : CStr) (t : Target) : DbOp → Prop
  | .getData path | .putData path _ | .postData path _ | .patchData path _ =>
      t = dataTarget base path
  | .deleteData path => t = deleteTarget base path
  | .trimDays root_path _ =>
      t = shallowTarget base root_path ∨ ∃ day, t = deleteTarget base (childPath root_path day)
  | .trimOldestBatch root_path batch_size =>
      t = listTarget base root_path batch_size ∨ t = patchTarget base root_path

/-- A request of the operation carries the token the app held when it was sent. A URL is
handed over as a C string. -/
def DbOp.CarriesToken (op : DbOp) (base : CStr) (e : Exchange) : Prop :=
  ∃ t, op.Targets base t ∧ e.client.url = cString (t.url e.auth_token)

/-! ### The condition on the answers -/

/-- A login whose requests are answered from the number `n` on does not bring another
token than `token`: one of them is not answered with 200, or its body stops the program,
or the token in it is the same. -/
def ReloginKeeps (A : Answers) (token : Bytes) (n : ℕ) : Prop :=
  (settle A 4 n).1.ret.is200 = true →
    (refreshTokenOf A.printReal (received (settle A 4 n).1.body)).isSome →
    (settle A 4 (settle A 4 n).2).1.ret.is200 = true →
    ∀ text life, authTokenOf A.printReal (received (settle A 4 (settle A 4 n).2).1.body)
      = some (text, life) → cString text = cString token

/-- The operation is not `getData`, or its first request is answered with 200, or the
login after it does not bring another token. -/
def DbOp.KeepsToken (A : Answers) (d : Rtdb ℕ) : DbOp → Prop
  | .getData _ =>
      (settle A 4 d.app.world).1.ret.is200 = true ∨
        ReloginKeeps A d.app.auth_token (settle A 4 d.app.world).2
  | _ => True

/-! ### The law along an operation -/

section Law

variable {A : Answers}

/-- The law, between the state before an operation and a state in the middle of it. -/
structure InUse (op : DbOp) (d d' : Rtdb ℕ) : Prop where
  base : d'.base_database_url = d.base_database_url
  ready : d'.app.Ready
  carries : ∃ es, d'.requests = d.requests ++ es ∧
    ∀ e ∈ es, op.CarriesToken d.base_database_url e

variable {op : DbOp} {d d' : Rtdb ℕ}

/-- Every operation leaves the app with its handle. -/
theorem graded_ready (A : Answers) : GradedDeletes A.world fun _ s t => s.Ready → t.Ready where
  same h hs := ⟨by rw [h.client]; exact hs.handle, by rw [h.recv]; exact hs.size⟩
  trans h h' := h' ∘ h
  mono h _ := h
  request _ url method post_field hs := (performRequest_answers hs url method post_field).ready
  setHeader _ header value hs := hs.setHeader header value
  clear _ hs := hs.clearHTTPBuffer
  setTimeout _ ms hs := hs.setHttpTimeoutMs ms

theorem InUse.refl (h : d.app.Ready) : InUse op d d :=
  ⟨rfl, h, [], by simp, by simp⟩

theorem InUse.onApp (h : InUse op d d') {f : App ℕ → App ℕ} (hf : (f d'.app).Ready) :
    InUse op d (d'.onApp f) :=
  ⟨h.base, hf, h.carries⟩

theorem InUse.setHeader (h : InUse op d d') (header value : Bytes) :
    InUse op d (d'.setHeader header value) :=
  h.onApp (h.ready.setHeader header value)

theorem InUse.clearHTTPBuffer (h : InUse op d d') : InUse op d d'.clearHTTPBuffer :=
  h.onApp h.ready.clearHTTPBuffer

theorem InUse.setDeleteHeaders (h : InUse op d d') : InUse op d d'.setDeleteHeaders :=
  (h.setHeader _ _).setHeader _ _

theorem InUse.parseResponse (h : InUse op d d') : InUse op d d'.parseResponse.2 := by
  have hread : InUse op d { d' with app := d'.app.readBuffer.2 } :=
    ⟨h.base, ⟨h.ready.handle, h.ready.size⟩, h.carries⟩
  exact hread.clearHTTPBuffer

/-- A call that signs in again sends no database request. -/
theorem InUse.renew (h : InUse op d d') {call : App ℕ → Option (EspErr × App ℕ)} {d'' : Rtdb ℕ}
    (hcall : ∀ {err t}, call d'.app = some (err, t) → t.Ready)
    (hd'' : d'.renew call = some d'') : InUse op d d'' := by
  simp only [Rtdb.renew, Option.map_eq_some_iff] at hd''
  obtain ⟨⟨err, t⟩, hrun, rfl⟩ := hd''
  exact ⟨h.base, hcall hrun, h.carries⟩

/-- What the requests made from one URL carry. -/
theorem sentBy_answers {s : App ℕ} (hs : s.Ready) (url : Bytes) (method : Method)
    (post_field : Bytes) :
    ∀ e ∈ sentBy A.world s url method post_field,
      e.client.url = url ∧ e.auth_token = s.auth_token := by
  intro e he
  have hcarry := carries_of_settersHold (settersHold_answers (A := A) hs url method post_field) e he
  exact ⟨hcarry.1, (performRequest_sent s url method post_field).2 e he⟩

/-- **A request whose URL is built from the token held** keeps the law. -/
theorem InUse.performRequest (h : InUse op d d') {t : Target}
    (ht : op.Targets d'.base_database_url t) (method : Method) (post_field : Bytes) :
    InUse op d (d'.performRequest A.world (t.url d'.app.auth_token) method post_field).2 := by
  obtain ⟨es, hes, hall⟩ := h.carries
  refine ⟨h.base, (performRequest_answers (A := A) h.ready _ _ _).ready,
    es ++ sentBy A.world d'.app (cString (t.url d'.app.auth_token)) method post_field, ?_, ?_⟩
  · simp [Rtdb.performRequest, hes]
  · intro e he
    rcases List.mem_append.mp he with hold | hnew
    · exact hall e hold
    · obtain ⟨hu, htok⟩ := sentBy_answers h.ready _ _ _ e hnew
      exact ⟨t, h.base ▸ ht, by rw [hu, htok]⟩

/-! ### The operations that keep it -/

/-- The header that `getData`, `sendData` and the listings set. -/
abbrev Rtdb.asJson (d : Rtdb ℕ) : Rtdb ℕ :=
  d.setHeader (ascii "content-type") (ascii "application/json")

/-- A refresh leaves the app ready. -/
theorem InUse.forceRefreshAuth (h : InUse op d d') {d'' : Rtdb ℕ}
    (hd'' : d'.renew (forceRefreshAuth A.world) = some d'') : InUse op d d'' :=
  h.renew (fun hrun => (graded_ready A).forceRefreshAuth hrun h.ready) hd''

theorem InUse.sendData (h : InUse op d d') (method : Method) (path json_str : CStr)
    (htargets : ∀ base, op.Targets base (dataTarget base path)) :
    InUse op d (sendData A.world method d' path json_str).2 := by
  have hfirst : InUse op d (d'.asJson.performRequest A.world
      ((dataTarget d'.base_database_url path).url d'.app.auth_token) method json_str.bytes).2 :=
    (h.setHeader _ _).performRequest (htargets _) method json_str.bytes
  simp only [PppAmb.sendData]
  generalize Rtdb.performRequest A.world _ _ method json_str.bytes = r at hfirst ⊢
  obtain ⟨http_ret, d₁⟩ := r
  split
  · cases hrenew : d₁.renew (PppAmb.forceRefreshAuth A.world) with
    | none => exact hfirst
    | some d₂ =>
        have hsecond := hfirst.forceRefreshAuth hrenew
        have hlast : InUse op d (d₂.asJson.performRequest A.world
            ((dataTarget d₂.base_database_url path).url d₂.app.auth_token) method
            json_str.bytes).2 :=
          (hsecond.setHeader _ _).performRequest (htargets _) method json_str.bytes
        exact hlast.clearHTTPBuffer
  · exact hfirst.clearHTTPBuffer

theorem InUse.deleteData (h : InUse op d d') (path : CStr)
    (htargets : ∀ base, op.Targets base (deleteTarget base path)) :
    InUse op d (deleteData A.world d' path).2 := by
  have hfirst : InUse op d ((d'.onApp fun s => s.setHttpTimeoutMs LONG_TIMEOUT_MS).setDeleteHeaders
      |>.performRequest A.world ((deleteTarget d'.base_database_url path).url d'.app.auth_token)
        .delete []).2 :=
    (h.onApp (h.ready.setHttpTimeoutMs _)).setDeleteHeaders.performRequest (htargets _) .delete []
  simp only [PppAmb.deleteData]
  generalize Rtdb.performRequest A.world _ _ .delete [] = r at hfirst ⊢
  obtain ⟨http_ret, d₁⟩ := r
  split
  · cases hrenew : d₁.renew (PppAmb.forceRefreshAuth A.world) with
    | none => exact hfirst
    | some d₂ =>
        have hsecond := hfirst.forceRefreshAuth hrenew
        have hlast : InUse op d (d₂.setDeleteHeaders.performRequest A.world
            ((deleteTarget d₂.base_database_url path).url d₂.app.auth_token) .delete []).2 :=
          hsecond.setDeleteHeaders.performRequest (htargets _) .delete []
        exact (hlast.onApp (hlast.ready.setHttpTimeoutMs _)).clearHTTPBuffer
  · exact (hfirst.onApp (hfirst.ready.setHttpTimeoutMs _)).clearHTTPBuffer

/-- The deletions keep it one after the other. -/
theorem InUse.deleteDays {root_path : CStr}
    (htargets : ∀ day base, op.Targets base (deleteTarget base (childPath root_path day)))
    (days : List Bytes) : ∀ {d' : Rtdb ℕ}, InUse op d d' →
      InUse op d (deleteDays A.world root_path days d').2 := by
  induction days with
  | nil => exact id
  | cons day days ih =>
      intro d' h
      have hday := h.deleteData (A := A) (childPath root_path day) (htargets day)
      rw [PppAmb.deleteDays]
      generalize PppAmb.deleteData A.world d' (childPath root_path day) = r at hday ⊢
      obtain ⟨_ | err, d₁⟩ := r
      · exact hday
      · exact ih hday

theorem InUse.trimDays {root_path : CStr} {max_days : Int}
    (h : InUse (.trimDays root_path max_days) d d') :
    InUse (.trimDays root_path max_days) d (trimDays A.world d' root_path max_days).2 := by
  have hfirst : InUse (.trimDays root_path max_days) d (d'.asJson.performRequest A.world
      ((shallowTarget d'.base_database_url root_path).url d'.app.auth_token) .get []).2 :=
    (h.setHeader _ _).performRequest (Or.inl rfl) .get []
  simp only [PppAmb.trimDays]
  generalize Rtdb.performRequest A.world _ _ .get [] = r at hfirst ⊢
  obtain ⟨http_ret, d₁⟩ := r
  have hparse := hfirst.parseResponse
  simp only at hparse
  generalize d₁.parseResponse = r at hparse ⊢
  obtain ⟨obj, d₂⟩ := r
  split
  · exact h
  · split
    · exact hfirst.clearHTTPBuffer
    · cases obj with
      | none => exact hparse
      | some days_obj =>
          dsimp only
          split
          · exact hparse
          · cases days_obj.getMemberNames with
            | none => exact hparse
            | some days =>
                dsimp only
                split
                · exact hparse
                · have htargets : ∀ day base, DbOp.Targets base
                      (deleteTarget base (childPath root_path day))
                      (.trimDays root_path max_days) :=
                    fun day base => Or.inr ⟨day, rfl⟩
                  exact InUse.deleteDays htargets _ hparse

theorem InUse.trimOldestBatch {root_path : CStr} {batch_size : Int}
    (h : InUse (.trimOldestBatch root_path batch_size) d d') :
    InUse (.trimOldestBatch root_path batch_size) d
      (trimOldestBatch A.world d' root_path batch_size).2 := by
  have hfirst : InUse (.trimOldestBatch root_path batch_size) d (d'.asJson.performRequest A.world
      ((listTarget d'.base_database_url root_path batch_size).url d'.app.auth_token) .get []).2 :=
    (h.setHeader _ _).performRequest (Or.inl rfl) .get []
  simp only [PppAmb.trimOldestBatch]
  generalize Rtdb.performRequest A.world _ _ .get [] = r at hfirst ⊢
  obtain ⟨get_ret, d₁⟩ := r
  have hparse := hfirst.parseResponse
  simp only at hparse
  generalize d₁.parseResponse = r at hparse ⊢
  obtain ⟨obj, d₂⟩ := r
  split
  · exact h
  · split
    · exact hfirst.clearHTTPBuffer
    · cases obj with
      | none => exact hparse
      | some obj =>
          dsimp only
          split
          · exact hparse
          · cases obj.getMemberNames with
            | none => exact hparse
            | some keys =>
                dsimp only
                have hlast : InUse (.trimOldestBatch root_path batch_size) d
                    (d₂.asJson.performRequest A.world
                      ((patchTarget d₂.base_database_url root_path).url d₂.app.auth_token) .patch
                      (patch_body keys)).2 :=
                  (hparse.setHeader _ _).performRequest (Or.inr rfl) .patch (patch_body keys)
                split
                · exact hparse
                · split
                  · exact hlast.clearHTTPBuffer
                  · exact hlast.clearHTTPBuffer

/-! ### The reading of data -/

/-- The request for a token brings no other one exactly when its answer does not. -/
theorem getAuthToken_keeps_iff {s : App ℕ} (hs : s.Ready) :
    (∀ err t, getAuthToken A.world s = some (err, t) →
        cString t.auth_token = cString s.auth_token) ↔
      ((settle A 4 s.world).1.ret.is200 = true → ∀ text life,
        authTokenOf A.printReal (received (settle A 4 s.world).1.body) = some (text, life) →
          cString text = cString s.auth_token) := by
  have hsettled : Settled s.auth_token (s.authRequest A.world).2 (s.authRequest A.world).1
      (settle A 4 s.world).1 (settle A 4 s.world).2 :=
    performRequest_answers (hs.setHeader _ _) _ _ _
  have htoken : (s.authRequest A.world).2.auth_token = s.auth_token :=
    congrArg Credentials.auth_token (credentials_authRequest s)
  have hread : (s.authRequest A.world).1.is200 = true → (s.authRequest A.world).2.text
      = received (settle A 4 s.world).1.body := fun hyes =>
    hsettled.text (HttpRet.is2xx_of_is200 (hsettled.ret_eq ▸ hyes))
  have hreal : A.world.printReal = A.printReal := rfl
  have hresult := authResult A.world s
  rw [← hsettled.ret_eq]
  generalize getAuthToken A.world s = result at hresult ⊢
  cases hresult with
  | failed hno =>
      refine iff_of_true (fun err t ht => ?_) fun hyes => absurd (hyes.symm.trans hno) (by decide)
      obtain ⟨-, rfl⟩ := Prod.mk.inj (Option.some.inj ht)
      rw [htoken]
  | aborted hyes htext =>
      refine iff_of_true (fun err t ht => absurd ht (by simp)) fun _ text life htext' => ?_
      rw [← hread hyes] at htext'
      exact absurd (htext.symm.trans htext') (by simp)
  | @taken token life hyes htext =>
      rw [hreal] at htext
      rw [← hread hyes, htext]
      constructor
      · rintro hkeeps - _ _ heq
        obtain ⟨rfl, rfl⟩ := Prod.mk.inj (Option.some.inj heq)
        exact hkeeps ESP_OK _ rfl
      · rintro hkeeps err t ht
        obtain ⟨-, rfl⟩ := Prod.mk.inj (Option.some.inj ht)
        exact hkeeps hyes token life rfl

/-- A login brings no other token exactly when its answers do not. -/
theorem reloginKeeps_iff {s : App ℕ} (hs : s.Ready) (account : UserAccount) :
    ReloginKeeps A s.auth_token s.world ↔
      ∀ err t, loginUserAccount A.world s account = some (err, t) →
        cString t.auth_token = cString s.auth_token := by
  set s₀ : App ℕ := { s with user_account := account } with hs₀
  have hready : s₀.Ready := ⟨hs.handle, hs.size⟩
  have hfirst : Settled s₀.auth_token (s₀.refreshRequest A.world false).2
      (s₀.refreshRequest A.world false).1 (settle A 4 s.world).1 (settle A 4 s.world).2 :=
    performRequest_answers (hready.setHeader _ _) _ _ _
  have htoken : (s₀.refreshRequest A.world false).2.auth_token = s₀.auth_token :=
    congrArg Credentials.auth_token (credentials_refreshRequest s₀ false)
  have hread : (s₀.refreshRequest A.world false).1.is200 = true →
      (s₀.refreshRequest A.world false).2.text = received (settle A 4 s.world).1.body := fun hyes =>
    hfirst.text (HttpRet.is2xx_of_is200 (hfirst.ret_eq ▸ hyes))
  have hreal : A.world.printReal = A.printReal := rfl
  have hresult := refreshResult A.world s₀ false
  rw [loginUserAccount, signIn, ReloginKeeps, ← hs₀, ← hfirst.ret_eq]
  generalize getRefreshToken A.world s₀ false = first at hresult ⊢
  cases hresult with
  | failed hno =>
      have hfailed : ESP_FAIL ≠ ESP_OK := by decide
      refine iff_of_true (fun hyes => absurd (hyes.symm.trans hno) (by decide)) fun err t ht => ?_
      simp only [Option.bind_eq_bind, Option.bind_some, hfailed, ne_eq, not_false_eq_true, if_true,
        Option.some.injEq, Prod.mk.injEq] at ht
      rw [← ht.2, htoken]
  | aborted hyes htext =>
      refine iff_of_true (fun _ hsome => ?_) fun err t ht => absurd ht (by simp)
      rw [hreal] at htext
      rw [← hread hyes, htext] at hsome
      exact absurd hsome (by simp)
  | @taken token hyes htext =>
      set t₁ : App ℕ := { (s₀.refreshRequest A.world false).2.readBuffer.2 with
        refresh_token := token } with ht₁
      have hready₁ : t₁.clearHTTPBuffer.Ready := ⟨hfirst.ready.handle, length_zeroed _⟩
      have hworld₁ : t₁.clearHTTPBuffer.world = (settle A 4 s.world).2 := hfirst.world_eq
      have htoken₁ : t₁.clearHTTPBuffer.auth_token = s.auth_token := htoken
      have hsecond := getAuthToken_keeps_iff (A := A) hready₁
      rw [hworld₁, htoken₁] at hsecond
      rw [hreal] at htext
      rw [← hread hyes, htext]
      simp only [hyes, Option.isSome_some, forall_const]
      rw [← hsecond]
      simp only [Option.bind_eq_bind, Option.bind_some, ne_eq, not_true_eq_false, if_false]
      -- what follows the second request keeps the token
      cases hsent : getAuthToken A.world t₁.clearHTTPBuffer with
      | none => simp
      | some result =>
          obtain ⟨err₂, t₂⟩ := result
          by_cases hok : err₂ = ESP_OK <;> simp [hok, App.clearHTTPBuffer]

/-- A URL tells its token, as a C string. -/
theorem cString_dataUrl_inj (base path : CStr) (token token' : Bytes) :
    cString ((dataTarget base path).url token) = cString ((dataTarget base path).url token') ↔
      cString token = cString token' := by
  have hfree : NulFree ((dataTarget base path).before ++ ascii "auth=") :=
    ((base.nulFree.append path.nulFree).append (by decide)).append (by decide)
  have hafter : (dataTarget base path).after = [] := rfl
  simp only [Target.url, hafter, List.append_nil]
  rw [cString_append hfree, cString_append hfree, List.append_cancel_left_eq]

/-- At least one attempt is made. -/
theorem exists_mem_sentBy {s : App ℕ} (hs : s.Ready) (url : Bytes) (method : Method)
    (post_field : Bytes) : ∃ e, e ∈ sentBy A.world s url method post_field := by
  obtain ⟨c, hset, -⟩ := setUp_answers (A := A) hs url method post_field
  exact ⟨_, first_mem_sentBy hset⟩

/-- The second request of `getData` keeps the law exactly when the token is still the one
the URL was built from. -/
theorem carries_second_iff {path : CStr} (h : InUse (.getData path) d d') (token : Bytes) :
    (∀ e ∈ (d'.performRequest A.world ((dataTarget d.base_database_url path).url token) .get
        []).2.requests.drop d.requests.length,
      DbOp.CarriesToken (.getData path) d.base_database_url e) ↔
      cString token = cString d'.app.auth_token := by
  obtain ⟨es, hes, hall⟩ := h.carries
  set url := cString ((dataTarget d.base_database_url path).url token) with hurl
  have hnew : (d'.performRequest A.world ((dataTarget d.base_database_url path).url token) .get
      []).2.requests.drop d.requests.length = es ++ sentBy A.world d'.app url .get [] := by
    simp [Rtdb.performRequest, hes, hurl]
  rw [hnew]
  constructor
  · intro hcarry
    obtain ⟨e, he⟩ := exists_mem_sentBy (A := A) h.ready url .get []
    obtain ⟨hu, htok⟩ := sentBy_answers h.ready _ _ _ e he
    obtain ⟨t, rfl, ht⟩ := hcarry e (List.mem_append_right _ he)
    rw [hu, htok, hurl] at ht
    exact (cString_dataUrl_inj _ _ _ _).mp ht
  · intro heq e he
    rcases List.mem_append.mp he with hold | hnew
    · exact hall e hold
    · obtain ⟨hu, htok⟩ := sentBy_answers h.ready _ _ _ e hnew
      refine ⟨_, rfl, ?_⟩
      rw [hu, htok, hurl]
      exact (cString_dataUrl_inj _ _ _ _).mpr heq

theorem InUse.carries_drop (h : InUse op d d') :
    ∀ e ∈ d'.requests.drop d.requests.length, op.CarriesToken d.base_database_url e := by
  obtain ⟨es, hes, hall⟩ := h.carries
  rw [hes, List.drop_left]
  exact hall

theorem getData_carries_iff (hd : d.app.Ready) (path : CStr) :
    (∀ e ∈ (getData A.world d path).2.requests.drop d.requests.length,
      DbOp.CarriesToken (.getData path) d.base_database_url e) ↔
      DbOp.KeepsToken A d (.getData path) := by
  have hstart : InUse (.getData path) d d.asJson := (InUse.refl hd).setHeader _ _
  have hfirst : InUse (.getData path) d (d.asJson.performRequest A.world
      ((dataTarget d.base_database_url path).url d.app.auth_token) .get []).2 :=
    hstart.performRequest rfl .get []
  obtain ⟨hret, hworld, -⟩ := performRequest_answers (A := A) hstart.ready
    (cString ((dataTarget d.base_database_url path).url d.app.auth_token)) .get []
  have hcred := credentials_performRequest (W := A.world) d.asJson.app
    (cString ((dataTarget d.base_database_url path).url d.app.auth_token)) .get []
  have htoken : (d.asJson.performRequest A.world
      ((dataTarget d.base_database_url path).url d.app.auth_token) .get []).2.app.auth_token
        = d.app.auth_token := congrArg Credentials.auth_token hcred
  have hret' : (d.asJson.performRequest A.world
      ((dataTarget d.base_database_url path).url d.app.auth_token) .get []).1
        = (settle A 4 d.app.world).1.ret := hret
  have hworld' : (d.asJson.performRequest A.world
      ((dataTarget d.base_database_url path).url d.app.auth_token) .get []).2.app.world
        = (settle A 4 d.app.world).2 := hworld
  simp only [getData, DbOp.KeepsToken]
  generalize hr : Rtdb.performRequest A.world d.asJson
    ((dataTarget d.base_database_url path).url d.app.auth_token) .get [] = r
    at hfirst htoken hret' hworld' ⊢
  obtain ⟨http_ret, d₁⟩ := r
  simp only at hfirst htoken hret' hworld' ⊢
  rw [hret']
  split
  · rename_i hok
    exact iff_of_true hfirst.parseResponse.carries_drop (Or.inl hok)
  · rename_i hno
    simp only [hno, Bool.false_eq_true, false_or, Rtdb.renew]
    cases hlogin : loginUserAccount A.world d₁.app d₁.app.user_account with
    | none =>
        refine iff_of_true hfirst.carries_drop ?_
        rw [← htoken, ← hworld', reloginKeeps_iff hfirst.ready d₁.app.user_account, hlogin]
        exact fun err t ht => absurd ht (by simp)
    | some r =>
        obtain ⟨err, app⟩ := r
        have hready : app.Ready := (graded_ready A).signIn hlogin hfirst.ready
        have hlogged : InUse (.getData path) d { d₁ with app := app } :=
          ⟨hfirst.base, hready, hfirst.carries⟩
        have hsecond := hlogged.setHeader (ascii "content-type") (ascii "application/json")
        have hkeeps : ReloginKeeps A d₁.app.auth_token d₁.app.world ↔
            cString app.auth_token = cString d₁.app.auth_token := by
          rw [reloginKeeps_iff hfirst.ready d₁.app.user_account, hlogin]
          simp
        rw [htoken, hworld', eq_comm] at hkeeps
        rw [hkeeps]
        simp only [Option.map_some]
        split
        · exact carries_second_iff hsecond d.app.auth_token
        · exact carries_second_iff hsecond d.app.auth_token

end Law

/-- **The token in use.** For every operation, every reachable state and every sequence of
outcomes: each database request carries the token the app holds when it is sent if and
only if the operation is not `getData`, or its first request is answered with 200, or the
login after it brings no other token. -/
theorem requests_carry_token_iff (A : Answers) (d : Rtdb ℕ) (hd : Reachable A.world d.app)
    (op : DbOp) :
    (∀ e ∈ op.requests A.world d, op.CarriesToken d.base_database_url e) ↔ op.KeepsToken A d := by
  have hready := hd.idle.toReady
  cases op with
  | getData path => exact getData_carries_iff hready path
  | putData path json_str =>
      have hrefl : InUse (.putData path json_str) d d := .refl hready
      have hkept := hrefl.sendData (A := A) .put path json_str fun _ => rfl
      exact iff_of_true hkept.carries_drop trivial
  | postData path json_str =>
      have hrefl : InUse (.postData path json_str) d d := .refl hready
      have hkept := hrefl.sendData (A := A) .post path json_str fun _ => rfl
      exact iff_of_true hkept.carries_drop trivial
  | patchData path json_str =>
      have hrefl : InUse (.patchData path json_str) d d := .refl hready
      have hkept := hrefl.sendData (A := A) .patch path json_str fun _ => rfl
      exact iff_of_true hkept.carries_drop trivial
  | deleteData path =>
      have hrefl : InUse (.deleteData path) d d := .refl hready
      have hkept := hrefl.deleteData (A := A) path fun _ => rfl
      exact iff_of_true hkept.carries_drop trivial
  | trimDays root_path max_days =>
      exact iff_of_true (InUse.refl hready).trimDays.carries_drop trivial
  | trimOldestBatch root_path batch_size =>
      exact iff_of_true (InUse.refl hready).trimOldestBatch.carries_drop trivial

/-- A `FirebaseApp` right after its constructor, with a database at `https://db`. -/
def freshRtdb (A : Answers) : Rtdb ℕ where
  base_database_url := .of (ascii "https://db")
  app := App.new A.world (ascii "key") (zeroed HTTP_RECV_BUFFER_SIZE) 0
  requests := []

theorem reachable_freshRtdb (A : Answers) : Reachable A.world (freshRtdb A).app :=
  .new _ _ _ (length_zeroed _)

/-- All requests of a `PUT` that is answered with 401 carry the token held. -/
theorem requests_carry_token_put :
    Reachable (Answers.always ⟨ESP_OK, 401, []⟩).world
        (freshRtdb (.always ⟨ESP_OK, 401, []⟩)).app ∧
      ∀ e ∈ (DbOp.putData (.of (ascii "/h")) (.of (ascii "1"))).requests
          (Answers.always ⟨ESP_OK, 401, []⟩).world (freshRtdb (.always ⟨ESP_OK, 401, []⟩)),
        (DbOp.putData (.of (ascii "/h")) (.of (ascii "1"))).CarriesToken
          (.of (ascii "https://db")) e :=
  ⟨reachable_freshRtdb _, (requests_carry_token_iff _ _ (reachable_freshRtdb _) _).mpr trivial⟩

/-- Five answers 401, then answers 200 with a fresh token. -/
def expiredToken : Answers where
  outcome n := if n < 5 then ⟨ESP_OK, 401, []⟩ else ⟨ESP_OK, 200, tokensBody⟩
  clock _ := 0
  printReal := id

/-- **The retry of `getData`** carries the token that the login before it has replaced. -/
theorem getData_resends_old_token :
    ¬ ∀ (A : Answers) (d : Rtdb ℕ), Reachable A.world d.app → ∀ op : DbOp,
      ∀ e ∈ op.requests A.world d, op.CarriesToken d.base_database_url e := by
  intro h
  have hall := h expiredToken (freshRtdb expiredToken) (reachable_freshRtdb _)
    (.getData (.of (ascii "/h")))
  rw [DbOp.requests, DbOp.run,
    getData_carries_iff (reachable_freshRtdb expiredToken).idle.toReady] at hall
  rcases hall with hok | hkeeps
  · exact absurd hok (by decide)
  · exact absurd (hkeeps rfl (by decide +kernel) rfl (ascii "a") 3600 (by decide +kernel))
      (by decide)

end PppAmb
