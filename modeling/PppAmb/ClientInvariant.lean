import PppAmb.Outcomes
import PppAmb.Shim
import PppAmb.Writes

/-!
# What Every Operation Keeps

The operations of the app and of the database client are built from requests and from a few
calls that prepare them. A graded relation `R n s t` relates the app before and after at most
`n` requests; if the parts respect it, then so does every operation.

## Main results

* `Graded.forceRefreshAuth`, `Graded.sendData`, `Graded.trimOldestBatch`,
  `GradedDeletes.deleteData`: the grades of the operations.
* `graded_attempts`: `n` requests make at most `5 * n` attempts.
* `graded_staysIdle`: if the server closes the connections of attempts that fail, an app whose
  connection is closed is left so by every operation.
-/

namespace PppAmb

variable {σ : Type}

/-- The two states differ at most in tokens, in the account and in the record of reads. -/
structure SameHandle (s t : App σ) : Prop where
  client : t.client = s.client
  recv : t.recv = s.recv
  world : t.world = s.world
  sent : t.sent = s.sent
  register_url : t.register_url = s.register_url
  login_url : t.login_url = s.login_url
  auth_url : t.auth_url = s.auth_url
  default_timeout_ms : t.default_timeout_ms = s.default_timeout_ms

/-- Every state has its own handle. -/
theorem SameHandle.refl (s : App σ) : SameHandle s s :=
  ⟨rfl, rfl, rfl, rfl, rfl, rfl, rfl, rfl⟩

/-- **A graded relation** between the states before and after some requests: it allows for the
parts of the operations, and grades add up. -/
structure Graded (W : World σ) (R : ℕ → App σ → App σ → Prop) : Prop where
  same : ∀ {s t}, SameHandle s t → R 0 s t
  trans : ∀ {m n s t u}, R m s t → R n t u → R (m + n) s u
  mono : ∀ {m n s t}, R m s t → m ≤ n → R n s t
  request : ∀ s url method post_field, R 1 s (performRequest W s url method post_field).2
  setHeader : ∀ s header value, R 0 s (s.setHeader header value)
  clear : ∀ s, R 0 s s.clearHTTPBuffer

/-- A graded relation that allows for other timeouts too, as deletions set them. -/
structure GradedDeletes (W : World σ) (R : ℕ → App σ → App σ → Prop) : Prop
    extends Graded W R where
  setTimeout : ∀ s ms, R 0 s (s.setHttpTimeoutMs ms)

namespace Graded

variable {W : World σ} {R : ℕ → App σ → App σ → Prop} (h : Graded W R) {s t : App σ}
  {err : EspErr}

include h

/-- Doing nothing has the grade zero. -/
theorem refl (s : App σ) : R 0 s s :=
  h.same (.refl s)

/-- A step that costs nothing. -/
theorem free {n : ℕ} {u : App σ} (hst : R n s t) (htu : R 0 t u) : R n s u := by
  have htrans := h.trans hst htu
  rwa [Nat.add_zero] at htrans

/-- A header and a request. -/
theorem jsonRequest (s : App σ) (url : Bytes) (method : Method) (post_field : Bytes) :
    R 1 s (performRequest W (s.setHeader (ascii "content-type") (ascii "application/json")) url
      method post_field).2 := by
  have htrans := h.trans (h.setHeader s (ascii "content-type") (ascii "application/json"))
    (h.request _ url method post_field)
  rwa [Nat.zero_add] at htrans

/-! ### Signing in -/

/-- The request for a refresh token is the only one. -/
theorem getRefreshToken {register_account : Bool}
    (hret : getRefreshToken W s register_account = some (err, t)) : R 1 s t := by
  rw [PppAmb.getRefreshToken] at hret
  set s₀ := s.setHeader (ascii "content-type") (ascii "application/json") with hs₀
  have hreq := h.jsonRequest s (if register_account then s₀.register_url else s₀.login_url) .post
    (account_json s₀.user_account)
  rw [← hs₀] at hreq
  generalize performRequest W s₀ (if register_account then s₀.register_url else s₀.login_url) .post
    (account_json s₀.user_account) = r at hreq hret
  dsimp only at hret
  split at hret
  · simp only [Option.bind_eq_bind, Option.bind_eq_some_iff, Option.some.injEq,
      Prod.mk.injEq] at hret
    obtain ⟨token, -, -, rfl⟩ := hret
    exact h.free hreq (h.same ⟨rfl, rfl, rfl, rfl, rfl, rfl, rfl, rfl⟩)
  · obtain ⟨-, rfl⟩ := Prod.mk.inj (Option.some.inj hret)
    exact hreq

/-- The request for a token is the only one. -/
theorem getAuthToken (hret : getAuthToken W s = some (err, t)) : R 1 s t := by
  have hreq := h.jsonRequest s s.auth_url .post (token_post_data s.refresh_token)
  simp only [PppAmb.getAuthToken] at hret
  split at hret
  · simp only [Option.bind_eq_bind, Option.bind_eq_some_iff, Option.some.injEq,
      Prod.mk.injEq] at hret
    obtain ⟨⟨token, life⟩, -, -, rfl⟩ := hret
    exact h.free hreq (h.same ⟨rfl, rfl, rfl, rfl, rfl, rfl, rfl, rfl⟩)
  · obtain ⟨-, rfl⟩ := Prod.mk.inj (Option.some.inj hret)
    exact hreq

/-- Signing in takes two requests. -/
theorem signIn {account : UserAccount} {register_account : Bool}
    (hret : signIn W s account register_account = some (err, t)) : R 2 s t := by
  have haccount : R 0 s { s with user_account := account } :=
    h.same ⟨rfl, rfl, rfl, rfl, rfl, rfl, rfl, rfl⟩
  simp only [PppAmb.signIn, Option.bind_eq_bind, Option.bind_eq_some_iff] at hret
  obtain ⟨⟨err₁, s₁⟩, hrefresh, hret⟩ := hret
  have h₁ := h.trans haccount (h.getRefreshToken hrefresh)
  dsimp only at hret
  split at hret
  · obtain ⟨-, rfl⟩ := Prod.mk.inj (Option.some.inj hret)
    exact h.mono h₁ (by omega)
  · simp only [Option.bind_eq_some_iff] at hret
    obtain ⟨⟨err₂, s₂⟩, hauth, hret⟩ := hret
    have h₂ := h.trans (h.free h₁ (h.clear s₁)) (h.getAuthToken hauth)
    dsimp only at hret
    split at hret
    · obtain ⟨-, rfl⟩ := Prod.mk.inj (Option.some.inj hret)
      exact h₂
    · obtain ⟨-, rfl⟩ := Prod.mk.inj (Option.some.inj hret)
      exact h.free h₂ (h.clear s₂)

/-- A forced renewal may ask for a token and then sign in: three requests. -/
theorem forceRefreshAuth (hret : forceRefreshAuth W s = some (err, t)) : R 3 s t := by
  simp only [PppAmb.forceRefreshAuth, Option.bind_eq_bind, Option.bind_eq_some_iff] at hret
  obtain ⟨⟨err₁, s₁⟩, hauth, hret⟩ := hret
  have h₁ := h.getAuthToken hauth
  dsimp only at hret
  split at hret
  · obtain ⟨-, rfl⟩ := Prod.mk.inj (Option.some.inj hret)
    exact h.mono (h.free h₁ (h.clear s₁)) (by omega)
  · exact h.trans h₁ (h.signIn hret)

/-- A renewal that is not needed is none. -/
theorem refreshAuthIfNeeded (hret : refreshAuthIfNeeded W s = some (err, t)) : R 3 s t := by
  rw [PppAmb.refreshAuthIfNeeded] at hret
  split at hret
  · exact h.mono (h.signIn hret) (by omega)
  · split at hret
    · obtain ⟨-, rfl⟩ := Prod.mk.inj (Option.some.inj hret)
      exact h.mono (h.refl _) (by omega)
    · dsimp only at hret
      split at hret
      · exact h.forceRefreshAuth hret
      · obtain ⟨-, rfl⟩ := Prod.mk.inj (Option.some.inj hret)
        exact h.mono (h.refl _) (by omega)

/-! ### The database client -/

omit h in
/-- A renewal of the token within an operation on the database. -/
theorem renew {n : ℕ} {call : App σ → Option (EspErr × App σ)}
    (hcall : ∀ {s err t}, call s = some (err, t) → R n s t) {d d' : Rtdb σ}
    (hret : d.renew call = some d') : R n d.app d'.app := by
  obtain ⟨⟨err, app⟩, hsome, rfl⟩ := Option.map_eq_some_iff.mp hret
  exact hcall hsome

/-- A request to the database with its header. -/
theorem dataRequest (d : Rtdb σ) (url : Bytes) (method : Method) (post_field : Bytes) :
    R 1 d.app ((d.setHeader (ascii "content-type") (ascii "application/json")).performRequest W url
      method post_field).2.app :=
  h.jsonRequest d.app (cString url) method post_field

/-- Reading the answer is no request. -/
theorem parseResponse (d : Rtdb σ) : R 0 d.app d.parseResponse.2.app :=
  h.free (h.same (t := d.app.readBuffer.2) ⟨rfl, rfl, rfl, rfl, rfl, rfl, rfl, rfl⟩) (h.clear _)

/-- `putData`, `postData` and `patchData`: two rounds and a renewal at most. -/
theorem sendData {method : Method} {d d' : Rtdb σ} {path json_str : CStr} {r : Option EspErr}
    (hret : sendData W method d path json_str = (r, d')) : R 5 d.app d'.app := by
  have hround : ∀ {e e' : Rtdb σ} {ret : HttpRet}, e.sendOnce W method path json_str = (ret, e') →
      R 1 e.app e'.app := by
    rintro e e' ret hsend
    obtain ⟨-, rfl⟩ := Prod.mk.inj hsend
    exact h.dataRequest e _ method json_str.bytes
  cases sendData_path hret with
  | once hfirst _ => exact h.mono (h.free (hround hfirst) (h.clear _)) (by omega)
  | stopped hfirst _ _ _ => exact h.mono (hround hfirst) (by omega)
  | twice hfirst _ _ hrenew hsecond =>
      exact h.free (h.trans (h.trans (hround hfirst) (renew h.forceRefreshAuth hrenew))
        (hround hsecond)) (h.clear _)

/-- A deletion is one request. -/
theorem deleteRequest (d : Rtdb σ) (url : Bytes) :
    R 1 d.app (d.setDeleteHeaders.performRequest W url .delete []).2.app := by
  have hheaders := h.free (h.setHeader d.app (ascii "Content-Length") (ascii "0"))
    (h.setHeader _ (ascii "Accept") (ascii "application/json"))
  have htrans := h.trans hheaders (h.request _ (cString url) .delete [])
  rwa [Nat.zero_add] at htrans

/-- A batch is listed and removed: two requests at most. -/
theorem trimOldestBatch {d d' : Rtdb σ} {root_path : CStr} {batch_size : Int} {r : Option Int}
    (hret : trimOldestBatch W d root_path batch_size = (r, d')) : R 2 d.app d'.app := by
  rw [PppAmb.trimOldestBatch] at hret
  split at hret
  · obtain ⟨-, rfl⟩ := Prod.mk.inj hret
    exact h.mono (h.refl _) (by omega)
  · have hlist := h.dataRequest d
      ((listTarget d.base_database_url root_path batch_size).url d.app.auth_token) .get []
    dsimp only at hret
    generalize (d.setHeader (ascii "content-type") (ascii "application/json")).performRequest W
      ((listTarget d.base_database_url root_path batch_size).url d.app.auth_token) .get [] = list
      at hlist hret
    split at hret
    · obtain ⟨-, rfl⟩ := Prod.mk.inj hret
      exact h.mono (h.free hlist (h.clear _)) (by omega)
    · have hparsed := h.free hlist (h.parseResponse list.2)
      rcases hparse : list.2.parseResponse with ⟨_ | obj, d₁⟩
      · rw [hparse] at hparsed hret
        obtain ⟨-, rfl⟩ := Prod.mk.inj hret
        exact h.mono hparsed (by omega)
      · rw [hparse] at hparsed hret
        dsimp only at hret
        split at hret
        · obtain ⟨-, rfl⟩ := Prod.mk.inj hret
          exact h.mono hparsed (by omega)
        · split at hret
          · obtain ⟨-, rfl⟩ := Prod.mk.inj hret
            exact h.mono hparsed (by omega)
          · rename_i keys _
            split at hret
            · obtain ⟨-, rfl⟩ := Prod.mk.inj hret
              exact h.mono hparsed (by omega)
            · have hpatch := h.free (h.trans hparsed (h.dataRequest d₁
                ((patchTarget d₁.base_database_url root_path).url d₁.app.auth_token) .patch
                (patch_body keys))) (h.clear _)
              split at hret
              · obtain ⟨-, rfl⟩ := Prod.mk.inj hret
                exact hpatch
              · obtain ⟨-, rfl⟩ := Prod.mk.inj hret
                exact hpatch

/-- Reading may sign in again in between: four requests at most. -/
theorem getData {d d' : Rtdb σ} {path : CStr} {r : Option Value}
    (hret : getData W d path = (r, d')) : R 4 d.app d'.app := by
  rw [PppAmb.getData] at hret
  have hfirst :=
    h.dataRequest d ((dataTarget d.base_database_url path).url d.app.auth_token) .get []
  dsimp only at hret
  generalize (d.setHeader (ascii "content-type") (ascii "application/json")).performRequest W
    ((dataTarget d.base_database_url path).url d.app.auth_token) .get [] = first at hfirst hret
  split at hret
  · obtain ⟨-, rfl⟩ := Prod.mk.inj hret
    exact h.mono (h.free hfirst (h.parseResponse first.2)) (by omega)
  · split at hret
    · obtain ⟨-, rfl⟩ := Prod.mk.inj hret
      exact h.mono hfirst (by omega)
    · rename_i d₂ hrenew
      have hlogin : R 2 first.2.app d₂.app := by
        obtain ⟨⟨err, app⟩, hsome, rfl⟩ := Option.map_eq_some_iff.mp hrenew
        exact h.signIn hsome
      have hsecond := h.trans (h.trans hfirst hlogin)
        (h.dataRequest d₂ ((dataTarget d.base_database_url path).url d.app.auth_token) .get [])
      split at hret
      · obtain ⟨-, rfl⟩ := Prod.mk.inj hret
        exact h.free hsecond (h.parseResponse _)
      · obtain ⟨-, rfl⟩ := Prod.mk.inj hret
        exact h.free hsecond (h.clear _)

end Graded

namespace GradedDeletes

variable {W : World σ} {R : ℕ → App σ → App σ → Prop} (h : GradedDeletes W R) {s : App σ}

include h

/-- The time-out and the buffer are put back without a request. -/
theorem restoreAndClear {n : ℕ} {d : Rtdb σ} (hd : R n s d.app) :
    R n s (d.onApp App.restoreDefaultHttpTimeout).clearHTTPBuffer.app :=
  h.free (h.free hd (h.setTimeout _ _)) (h.clear _)

/-- A deletion may force a renewal and be repeated: five requests at most. -/
theorem deleteData {d d' : Rtdb σ} {path : CStr} {r : Option EspErr}
    (hret : deleteData W d path = (r, d')) : R 5 d.app d'.app := by
  rw [PppAmb.deleteData] at hret
  set d₀ := d.onApp fun s => s.setHttpTimeoutMs LONG_TIMEOUT_MS with hd₀
  have hstart : R 0 d.app d₀.app := h.setTimeout d.app LONG_TIMEOUT_MS
  dsimp only at hret
  have hfirst := h.trans hstart
    (h.deleteRequest d₀ ((deleteTarget d.base_database_url path).url d.app.auth_token))
  generalize d₀.setDeleteHeaders.performRequest W
    ((deleteTarget d.base_database_url path).url d.app.auth_token) .delete [] = first at hfirst hret
  split at hret
  · cases hrenew : first.2.renew (PppAmb.forceRefreshAuth W) with
    | none =>
        simp only [hrenew, Prod.mk.injEq] at hret
        obtain ⟨-, rfl⟩ := hret
        exact h.mono hfirst (by omega)
    | some d₂ =>
        simp only [hrenew, Prod.mk.injEq] at hret
        obtain ⟨-, rfl⟩ := hret
        have hagain := h.trans (h.trans hfirst (Graded.renew h.forceRefreshAuth hrenew))
          (h.deleteRequest d₂ ((deleteTarget d₂.base_database_url path).url d₂.app.auth_token))
        exact h.mono (h.restoreAndClear hagain) (by omega)
  · obtain ⟨-, rfl⟩ := Prod.mk.inj hret
    exact h.mono (h.restoreAndClear hfirst) (by omega)

/-- Five requests for each day at most, by induction on the days. -/
theorem deleteDays {root_path : CStr} {days : List Bytes} {d d' : Rtdb σ} {r : Option EspErr}
    (hret : deleteDays W root_path days d = (r, d')) : R (5 * days.length) d.app d'.app := by
  induction days generalizing d with
  | nil =>
      obtain ⟨-, rfl⟩ := Prod.mk.inj hret
      exact h.refl _
  | cons day days ih =>
      rw [PppAmb.deleteDays] at hret
      rcases hday : PppAmb.deleteData W d (childPath root_path day) with ⟨_ | err, d₁⟩
      · simp only [hday, Prod.mk.injEq] at hret
        obtain ⟨-, rfl⟩ := hret
        exact h.mono (h.deleteData hday) (by simp)
      · simp only [hday] at hret
        exact h.mono (h.trans (h.deleteData hday) (ih hret)) (by simp; omega)

/-- A trim of days takes as many requests as there are days to remove. -/
theorem trimDays {d d' : Rtdb σ} {root_path : CStr} {max_days : Int} {r : Option EspErr}
    (hret : trimDays W d root_path max_days = (r, d')) : ∃ n, R n d.app d'.app := by
  rw [PppAmb.trimDays] at hret
  split at hret
  · obtain ⟨-, rfl⟩ := Prod.mk.inj hret
    exact ⟨0, h.refl _⟩
  · have hlist := h.dataRequest d
      ((shallowTarget d.base_database_url root_path).url d.app.auth_token) .get []
    dsimp only at hret
    generalize (d.setHeader (ascii "content-type") (ascii "application/json")).performRequest W
      ((shallowTarget d.base_database_url root_path).url d.app.auth_token) .get [] = list
      at hlist hret
    split at hret
    · obtain ⟨-, rfl⟩ := Prod.mk.inj hret
      exact ⟨1, h.free hlist (h.clear _)⟩
    · have hparsed := h.free hlist (h.parseResponse list.2)
      rcases hparse : list.2.parseResponse with ⟨_ | days_obj, d₁⟩
      · rw [hparse] at hparsed hret
        obtain ⟨-, rfl⟩ := Prod.mk.inj hret
        exact ⟨1, hparsed⟩
      · rw [hparse] at hparsed hret
        dsimp only at hret
        split at hret
        · obtain ⟨-, rfl⟩ := Prod.mk.inj hret
          exact ⟨1, hparsed⟩
        · split at hret
          · obtain ⟨-, rfl⟩ := Prod.mk.inj hret
            exact ⟨1, hparsed⟩
          · split at hret
            · obtain ⟨-, rfl⟩ := Prod.mk.inj hret
              exact ⟨1, hparsed⟩
            · exact ⟨_, h.trans hparsed (h.deleteDays hret)⟩

end GradedDeletes

/-! ### The C interface -/

section Interface

variable {W : World σ} {P : Privado} {s s' : Shim σ} {base : CStr} {app : App σ} {r : Int}

/-- A function of the interface runs the operation of the client, if there is one. -/
theorem onRtdb_eq_some {f : Rtdb σ → Option Int × Rtdb σ} (hrtdb : s.g_rtdb = some base)
    (happ : s.g_app = some app) (hret : s.onRtdb f = some (r, s')) :
    ∃ d', f ⟨base, app, []⟩ = (some r, d') ∧ s'.g_rtdb = some base ∧ s'.g_app = some d'.app := by
  simp only [Shim.onRtdb, hrtdb, happ] at hret
  rcases hcall : f ⟨base, app, []⟩ with ⟨_ | r', d'⟩
  · simp [hcall] at hret
  · simp only [hcall, Option.some.injEq, Prod.mk.injEq] at hret
    obtain ⟨rfl, rfl⟩ := hret
    exact ⟨d', rfl, rfl, rfl⟩

/-- What is returned for an error code. -/
theorem asInt_eq_some {x : Option EspErr × Rtdb σ} {d' : Rtdb σ} (h : asInt x = (some r, d')) :
    ∃ err, x = (some err, d') ∧ (r = 0 ↔ err = ESP_OK) := by
  obtain ⟨_ | err, d⟩ := x
  · simp [asInt] at h
  · simp only [asInt, Option.map_some, Prod.mk.injEq, Option.some.injEq] at h
    obtain ⟨rfl, rfl⟩ := h
    refine ⟨err, rfl, ?_⟩
    split
    · rename_i hok
      simp [hok]
    · rfl

/-- A write through the interface is a write of the client. -/
theorem firebase_putData_eq_some {path json : CStr} (hrtdb : s.g_rtdb = some base)
    (happ : s.g_app = some app) (hret : firebase_putData W path json s = some (r, s')) :
    ∃ err d', putData W ⟨base, app, []⟩ path json = (some err, d') ∧ (r = 0 ↔ err = ESP_OK) ∧
      s'.g_rtdb = some base ∧ s'.g_app = some d'.app := by
  obtain ⟨d', hcall, hrtdb', happ'⟩ := onRtdb_eq_some hrtdb happ hret
  obtain ⟨err, hput, hzero⟩ := asInt_eq_some hcall
  exact ⟨err, d', hput, hzero, hrtdb', happ'⟩

/-- A deletion through the interface is a deletion of the client. -/
theorem firebase_delete_eq_some {path : CStr} (hrtdb : s.g_rtdb = some base)
    (happ : s.g_app = some app) (hret : firebase_delete W path s = some (r, s')) :
    ∃ err d', deleteData W ⟨base, app, []⟩ path = (some err, d') ∧ (r = 0 ↔ err = ESP_OK) ∧
      s'.g_rtdb = some base ∧ s'.g_app = some d'.app := by
  obtain ⟨d', hcall, hrtdb', happ'⟩ := onRtdb_eq_some hrtdb happ hret
  obtain ⟨err, hdelete, hzero⟩ := asInt_eq_some hcall
  exact ⟨err, d', hdelete, hzero, hrtdb', happ'⟩

/-- The refresh of the token, when there is an app. -/
theorem firebase_refresh_token_eq_some (happ : s.g_app = some app)
    (hret : firebase_refresh_token W s = some (r, s')) :
    ∃ err app', forceRefreshAuth W app = some (err, app') ∧ (r = 0 ↔ err = ESP_OK) ∧
      s'.g_rtdb = s.g_rtdb ∧ s'.g_app = some app' := by
  simp only [firebase_refresh_token, happ, Option.bind_eq_bind, Option.bind_eq_some_iff,
    Option.some.injEq, Prod.mk.injEq] at hret
  obtain ⟨⟨err, app'⟩, hcall, rfl, rfl⟩ := hret
  refine ⟨err, app', hcall, ?_, rfl, rfl⟩
  split
  · rename_i hok
    exact iff_of_true rfl hok
  · rename_i hfail
    exact iff_of_false (by decide) hfail

/-- The logins of `firebase_init` make at most six requests. -/
theorem Graded.firstLogin {R : ℕ → App σ → App σ → Prop} (h : Graded W R) {t u : App σ}
    {err : EspErr} (hret : firstLogin W t = some (err, u)) : R 6 t u := by
  simp only [PppAmb.firstLogin, Option.bind_eq_bind, Option.bind_eq_some_iff] at hret
  obtain ⟨⟨err₁, t₁⟩, hlogin, hret⟩ := hret
  have h₁ := h.signIn hlogin
  dsimp only at hret
  split at hret
  · simp only [Option.bind_eq_some_iff] at hret
    obtain ⟨⟨err₂, t₂⟩, hregister, hret⟩ := hret
    have h₂ := h.trans h₁ (h.signIn hregister)
    dsimp only at hret
    split at hret
    · exact h.trans h₂ (h.signIn hret)
    · obtain ⟨-, rfl⟩ := Prod.mk.inj (Option.some.inj hret)
      exact h.mono h₂ (by omega)
  · obtain ⟨-, rfl⟩ := Prod.mk.inj (Option.some.inj hret)
    exact h.mono h₁ (by omega)

end Interface

/-! ### How many attempts -/

/-- At most five attempts are made for each request. -/
def Attempts (n : ℕ) (s t : App σ) : Prop :=
  ∃ es, t.sent = s.sent ++ es ∧ es.length ≤ 5 * n

/-- The bound on the attempts is graded: five for each request. -/
theorem graded_attempts (W : World σ) : GradedDeletes W Attempts where
  same h := ⟨[], by rw [h.sent, List.append_nil], by simp⟩
  trans := by
    rintro m n s t u ⟨es, hes, hm⟩ ⟨es', hes', hn⟩
    refine ⟨es ++ es', by rw [hes', hes, List.append_assoc], ?_⟩
    rw [List.length_append]
    omega
  mono := by
    rintro m n s t ⟨es, hes, hm⟩ hmn
    exact ⟨es, hes, by omega⟩
  request s url method post_field :=
    ⟨_, sent_performRequest s url method post_field,
      (performRequest_sent s url method post_field).1⟩
  setHeader s header value := ⟨[], (List.append_nil _).symm, by simp⟩
  setTimeout s ms := ⟨[], (List.append_nil _).symm, by simp⟩
  clear s := ⟨[], (List.append_nil _).symm, by simp⟩

/-! ### Between two requests -/

/-- The two handles differ at most in the request they name. -/
structure Client.Same (c c' : Client) : Prop where
  handler : c'.handler = c.handler
  connOpen : c'.connOpen = c.connOpen
  timeout_ms : c'.timeout_ms = c.timeout_ms

/-- Two calls after one another keep the client. -/
theorem Client.Same.trans {c c' c'' : Client} (h : c.Same c') (h' : c'.Same c'') : c.Same c'' :=
  ⟨h'.handler.trans h.handler, h'.connOpen.trans h.connOpen, h'.timeout_ms.trans h.timeout_ms⟩

/-- Setting a header keeps the connection. -/
theorem Client.same_setHeader (c : Client) (header value : Bytes) :
    c.Same (c.setHeader header value) := by
  rw [Client.setHeader]
  split <;> exact ⟨rfl, rfl, rfl⟩

section Idle

variable {W : World σ}

/-- Setting the body keeps the connection. -/
theorem same_applyPostField (w : σ) (c : Client) (data : Bytes) :
    c.Same (applyPostField W w c data).1 := by
  simp only [applyPostField]
  split <;> exact ⟨rfl, rfl, rfl⟩

/-- Setting the method keeps it. -/
theorem same_applyMethod (w : σ) (c : Client) (method : Method) :
    c.Same (applyMethod W w c method).1 := by
  simp only [applyMethod]
  split <;> exact ⟨rfl, rfl, rfl⟩

/-- The body is set, or taken off, with a header. -/
theorem same_applyBody (w : σ) (c : Client) (method : Method) (post_field : Bytes) :
    c.Same (applyBody W w c method post_field).1 := by
  rw [applyBody]
  split
  · exact (same_applyPostField w c post_field).trans (Client.same_setHeader _ _ _)
  · exact (same_applyPostField w c []).trans (Client.same_setHeader _ _ _)

/-- What is put back before another attempt keeps the connection as well. -/
theorem same_prepareRetry (w : σ) (c : Client) (method : Method) :
    c.Same (prepareRetry W w c method).1 := by
  rw [prepareRetry]
  split
  · exact Client.same_setHeader _ _ _
  · exact (same_applyPostField w c []).trans (Client.same_setHeader _ _ _)

/-- What follows the choice of the handle. -/
theorem same_prepare (w : σ) (c : Client) (method : Method) (post_field : Bytes) :
    c.Same (applyBody W (applyMethod W w c method).2 (applyMethod W w c method).1 method
      post_field).1 :=
  (same_applyMethod w c method).trans (same_applyBody _ _ method post_field)

/-- An attempt works with the handle there is. -/
theorem setUp_handle {w w' : σ} {c : Client} {c' : Option Client} {url post_field : Bytes}
    {method : Method} (hset : setUp W w (some c) url method post_field = (c', w')) :
    ∃ c₁, c' = some c₁ ∧ c.Same c₁ := by
  simp only [setUp, useClient, Prod.mk.injEq] at hset
  obtain ⟨rfl, -⟩ := hset
  refine ⟨_, rfl, Client.Same.trans ?_ (same_prepare _ _ method post_field)⟩
  split <;> exact ⟨rfl, rfl, rfl⟩

/-- The server closes the connection of an attempt that fails, and a handle can be had. -/
structure World.ClosesFailed (W : World σ) : Prop where
  init : ∀ w url, (W.init w url).1 = true
  closes : ∀ w c, (W.perform w c).1.succeeded = false → (W.perform w c).1.keepsOpen = false

/-- The handle of the constructor is there, with its connection closed. -/
structure App.Idle (s : App σ) : Prop extends s.Ready where
  closed : ∀ c, s.client = some c → c.connOpen = false

/-- The app is left as idle as it was found, with the URLs that sign in. -/
structure StaysIdle (s t : App σ) : Prop where
  idle : s.Idle → t.Idle
  register_url : t.register_url = s.register_url
  login_url : t.login_url = s.login_url
  auth_url : t.auth_url = s.auth_url

/-- An attempt that failed leaves no connection behind. -/
theorem App.Idle.afterFailure {s : App σ} (h : s.Idle) (method : Method) :
    (s.afterFailure W method).Idle := by
  refine ⟨h.toReady.afterFailure method, ?_⟩
  obtain ⟨c, hc, -⟩ := h.handle
  have hclosed := h.closed c hc
  simp only [App.afterFailure, App.readBuffer, hc, Option.some.injEq]
  rintro c' rfl
  rwa [(same_prepareRetry _ c method).connOpen]

/-- The attempt an idle app makes, when it fails. -/
theorem App.Idle.failed (hW : W.ClosesFailed) {s : App σ} (h : s.Idle) {url post_field : Bytes}
    {method : Method} {c : Client} {w : σ}
    (hset : setUp W s.world s.client url method post_field = (some c, w))
    (hfail : (W.perform w c).1.succeeded = false) :
    ((({ s with world := w } : App σ).perform W c).2.afterFailure W method).Idle := by
  obtain ⟨c₀, hc₀, hhandler⟩ := h.handle
  rw [hc₀] at hset
  obtain ⟨c₁, hc₁, hsame⟩ := setUp_handle hset
  obtain rfl := Option.some.inj hc₁
  have hidle : (({ s with world := w } : App σ).perform W c).2.Idle := by
    refine ⟨App.ready_perform h.size (by rw [hsame.handler, hhandler]), ?_⟩
    rintro c' hc'
    obtain rfl := Option.some.inj hc'
    exact hW.closes w c hfail
  exact hidle.afterFailure method

/-- A request leaves the client as it needs to find it. -/
theorem App.Idle.performRequest (hW : W.ClosesFailed) {s : App σ} (h : s.Idle) (url : Bytes)
    (method : Method) (post_field : Bytes) : (performRequest W s url method post_field).2.Idle := by
  refine requestLoop_rule (I := fun _ _ _ t => t.Idle) (Q := fun _ t => t.Idle) ?_ ?_ ?_ ?_ 5
    ESP_FAIL (-1) s h
  · intro err status t ht
    exact ht
  · intro n err status t w ht hset
    obtain ⟨c₀, hc₀, -⟩ := ht.handle
    rw [hc₀] at hset
    obtain ⟨c₁, hc₁, -⟩ := setUp_handle hset
    exact absurd hc₁ (by simp)
  · intro n err status t c w ht hset _
    obtain ⟨c₀, hc₀, hhandler⟩ := ht.handle
    rw [hc₀] at hset
    obtain ⟨c₁, hc₁, hsame⟩ := setUp_handle hset
    obtain rfl := Option.some.inj hc₁
    have hready : (({ t with world := w } : App σ).perform W c).2.Ready :=
      App.ready_perform ht.size (by rw [hsame.handler, hhandler])
    obtain ⟨c', hc', hhandler'⟩ := hready.handle
    refine ⟨⟨⟨{ c' with connOpen := false }, by simp [App.close, hc'], hhandler'⟩, hready.size⟩, ?_⟩
    rintro c'' hc''
    simp only [App.close, hc', Option.map_some, Option.some.injEq] at hc''
    rw [← hc'']
  · intro n err status t c w ht hset hfail
    exact ht.failed hW hset hfail

/-- **Every operation keeps the client idle.** -/
theorem graded_staysIdle (hW : W.ClosesFailed) : GradedDeletes W fun _ => StaysIdle where
  same h := by
    refine ⟨fun hs => ⟨⟨?_, ?_⟩, ?_⟩, h.register_url, h.login_url, h.auth_url⟩
    · rw [h.client]
      exact hs.handle
    · rw [h.recv]
      exact hs.size
    · rw [h.client]
      exact hs.closed
  trans h h' :=
    ⟨h'.idle ∘ h.idle, h'.register_url.trans h.register_url, h'.login_url.trans h.login_url,
      h'.auth_url.trans h.auth_url⟩
  mono h _ := h
  request s url method post_field := by
    have hcred := credentials_performRequest (W := W) s url method post_field
    exact ⟨fun hs => hs.performRequest hW url method post_field,
      congrArg Credentials.register_url hcred, congrArg Credentials.login_url hcred,
      congrArg Credentials.auth_url hcred⟩
  setHeader s header value := by
    refine ⟨fun hs => ⟨hs.toReady.setHeader header value, ?_⟩, rfl, rfl, rfl⟩
    intro c hc
    obtain ⟨c₀, hc₀, rfl⟩ := Option.map_eq_some_iff.mp hc
    rw [(Client.same_setHeader c₀ header value).connOpen]
    exact hs.closed c₀ hc₀
  setTimeout s ms := by
    refine ⟨fun hs => ⟨hs.toReady.setHttpTimeoutMs ms, ?_⟩, rfl, rfl, rfl⟩
    intro c hc
    obtain ⟨c₀, hc₀, rfl⟩ := Option.map_eq_some_iff.mp hc
    exact hs.closed c₀ hc₀
  clear s := ⟨fun hs => ⟨hs.toReady.clearHTTPBuffer, hs.closed⟩, rfl, rfl, rfl⟩

/-- An attempt that succeeds on a closed connection has opened a new one. -/
theorem cleanStart_of_closed (horder : W.InOrder) {w : σ} {c : Client} (r : Recv)
    (hhandler : c.handler = true) (hclosed : c.connOpen = false)
    (hsucc : (W.perform w c).1.succeeded = true) : CleanStart c r (W.perform w c).1 := by
  refine ⟨hhandler, Or.inl ?_⟩
  simp only [Attempt.succeeded, decide_eq_true_eq] at hsucc
  cases horder w c with
  | unconnected _ herr => exact absurd hsucc.1 herr
  | connected pre mid post hev _ _ _ =>
      rw [hev]
      simp
  | reused _ _ hopen _ _ _ => exact absurd hopen (by simp [hclosed])

/-- The requests of an idle app start clean. -/
theorem App.Idle.clean (hW : W.ClosesFailed) (horder : W.InOrder) {s : App σ} (h : s.Idle)
    (url : Bytes) (method : Method) (post_field : Bytes) :
    (ClientOp.request url method post_field).Clean W s := by
  have hfor : ∀ n (t : App σ), t.Idle →
      ForAttempts W (fun c r a => a.succeeded = true → CleanStart c r a) url method post_field n
        t := by
    intro n
    induction n with
    | zero => exact fun _ _ => trivial
    | succ n ih =>
        intro t ht
        rw [ForAttempts]
        rcases hset : setUp W t.world t.client url method post_field with ⟨_ | c, w⟩
        · trivial
        · refine ⟨fun hsucc => ?_, fun hfail => ih _ (ht.failed hW hset hfail)⟩
          obtain ⟨c₀, hc₀, hhandler⟩ := ht.handle
          rw [hc₀] at hset
          obtain ⟨c₁, hc₁, hsame⟩ := setUp_handle hset
          obtain rfl := Option.some.inj hc₁
          exact cleanStart_of_closed horder t.recv (hsame.handler.trans hhandler)
            (hsame.connOpen.trans (ht.closed c₀ hc₀)) hsucc
  exact hfor 5 s h

end Idle

end PppAmb
