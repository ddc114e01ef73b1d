import Mathlib.Logic.Function.Basic
import PppAmb.PutData

/-!
# When `putData` Is All or Nothing

A call reads the outcomes of its attempts one after the other, and nothing else of what is
outside has a part in what it returns. So a run can be made again with other outcomes after those
it has read, and with another content of the database. This gives the runs in which a sign-in
brings a token that the URL of the call cannot hold, and with them the exact condition under
which `putData` is all or nothing.

## Main results

* `performRequest_takes`, `forceRefreshAuth_takes`: a call reads a number of outcomes, and does the
  same in every world with the same attempts.
* `putData_unrenewed`: a sign-in that brings a token the URL cannot hold gives a run that returns
  `ESP_OK` without having set anything.
* `putData_sets_iff`: `putData` is all or nothing in every run exactly when in every run the write
  can be sent.
* `put_overwrites_other`: a path with a space in it sets the path of the request before.
-/

namespace PppAmb

/-! ### Calls in another world -/

section Moved

variable {Loc δ : Type} {R : Service Loc δ} {base : Bytes}

/-- The client with something else outside, and another time of the last sign-in. -/
abbrev App.moved (s : App (Outside δ)) (w : Outside δ) (auth_obtained_time : Int) :
    App (Outside δ) :=
  { s with world := w, auth_obtained_time := auth_obtained_time }

/-- The first `j` attempts are the same. -/
def SameAttempts (j : ℕ) (o o' : ℕ → WriteOutcome) : Prop :=
  ∀ i < j, (o' i).attempt = (o i).attempt

/-- The outcomes after the first `j`. -/
def later (j : ℕ) (o : ℕ → WriteOutcome) : ℕ → WriteOutcome :=
  fun i => o (i + j)

theorem later_later (j k : ℕ) (o : ℕ → WriteOutcome) : later k (later j o) = later (j + k) o := by
  funext i
  rw [later, later, later, show i + k + j = i + (j + k) by omega]

theorem SameAttempts.fst {j k : ℕ} {o o' : ℕ → WriteOutcome} (h : SameAttempts (j + k) o o') :
    SameAttempts j o o' :=
  fun i hi => h i (by omega)

theorem SameAttempts.snd {j k : ℕ} {o o' : ℕ → WriteOutcome} (h : SameAttempts (j + k) o o') :
    SameAttempts k (later j o) (later j o') :=
  fun i hi => h (i + j) (by omega)

/-- What is set up does not depend on what is outside. -/
theorem setUp_moved (w w' : Outside δ) (client : Option Client) (url : Bytes) (method : Method)
    (post_field : Bytes) :
    setUp (R.world base) w' client url method post_field
      = ((setUp (R.world base) w client url method post_field).1, w') := by
  cases client <;> cases hbody : method.hasBody <;> cases haccepts : R.accepts url <;>
    simp [setUp, useClient, applyMethod, applyBody, applyPostField, Service.world, hbody, haccepts]

theorem perform_moved {s : App (Outside δ)} {w : Outside δ} (c : Client) (time : Int)
    (h : (w.1 0).attempt = (s.world.1 0).attempt) :
    (s.moved w time).perform (R.world base) c
      = ((s.perform (R.world base) c).1, (s.perform (R.world base) c).2.moved
          ((R.world base).perform w c).2 time) := by
  simp only [App.perform, Service.world, h]

theorem afterFailure_moved (s : App (Outside δ)) (w : Outside δ) (time : Int) (method : Method) :
    (s.moved w time).afterFailure (R.world base) method
      = (s.afterFailure (R.world base) method).moved w time := by
  rcases hclient : s.client with _ | c <;> cases hbody : method.hasBody <;>
    simp [App.afterFailure, App.readBuffer, prepareRetry, applyPostField, Service.world, hclient,
      hbody]

/-- **A request read `j` outcomes.** In every world with the same attempts it does the same; it
leaves the database alone if none of them is applied. If it does not return 200, none of the
attempts did. -/
structure RequestTakes (f : App (Outside δ) → HttpRet × App (Outside δ)) (s : App (Outside δ))
    (j : ℕ) : Prop where
  rest : (f s).2.world.1 = later j s.world.1
  failed : (f s).1.is200 = false →
    ∀ i < j, (HttpRet.mk (s.world.1 i).attempt.err (s.world.1 i).attempt.status_code).is200 = false
  replay : ∀ w time, SameAttempts j s.world.1 w.1 →
    ∃ t, f (s.moved w time) = ((f s).1, (f s).2.moved (later j w.1, t) time) ∧
      ((∀ i < j, (w.1 i).applied = false) → t = w.2)

variable {url post_field : Bytes} {method : Method}

/-- One round of the loop, when there is a handle or one can be made. -/
theorem requestLoop_attempt (n : ℕ) (err : EspErr) (status : Int) {s : App (Outside δ)} {c : Client}
    (hset : (setUp (R.world base) s.world s.client url method post_field).1 = some c) :
    requestLoop (R.world base) url method post_field (n + 1) err status s
      = if (s.world.1 0).attempt.succeeded then
          (⟨(s.world.1 0).attempt.err, (s.world.1 0).attempt.status_code⟩,
            (s.perform (R.world base) c).2.close)
        else
          requestLoop (R.world base) url method post_field n (s.world.1 0).attempt.err
            (s.world.1 0).attempt.status_code
            ((s.perform (R.world base) c).2.afterFailure (R.world base) method) := by
  rw [requestLoop, setUp_moved s.world, hset]
  rfl

/-- The loop, when there is no handle and none can be made. -/
theorem requestLoop_no_handle {n : ℕ} {err : EspErr} {status : Int} {s : App (Outside δ)}
    (hset : (setUp (R.world base) s.world s.client url method post_field).1 = none) :
    requestLoop (R.world base) url method post_field (n + 1) err status s
      = (⟨err, status⟩, s) := by
  rw [requestLoop, setUp_moved s.world, hset]

/-- An attempt that does not succeed did not bring 200. -/
theorem Attempt.not_is200 {a : Attempt} (h : a.succeeded = false) :
    (HttpRet.mk a.err a.status_code).is200 = false := by
  simp only [Attempt.succeeded, HttpRet.is200, decide_eq_false_iff_not] at h ⊢
  rintro ⟨herr, hstatus⟩
  exact h ⟨herr, by omega, by omega⟩

theorem requestLoop_takes (n : ℕ) (err : EspErr) (status : Int) (s : App (Outside δ)) :
    ∃ j, RequestTakes (requestLoop (R.world base) url method post_field n err status) s j := by
  induction n generalizing err status s with
  | zero => exact ⟨0, rfl, by simp, fun w time _ => ⟨w.2, rfl, fun _ => rfl⟩⟩
  | succ n ih =>
      have hmoved : ∀ w, (setUp (R.world base) w s.client url method post_field).1
          = (setUp (R.world base) s.world s.client url method post_field).1 :=
        fun w => by rw [setUp_moved s.world]
      cases hset : (setUp (R.world base) s.world s.client url method post_field).1 with
      | none =>
          refine ⟨0, ?_, by simp, fun w time _ => ⟨w.2, ?_, fun _ => rfl⟩⟩
          · rw [requestLoop_no_handle hset]
            rfl
          · rw [requestLoop_no_handle hset, requestLoop_no_handle ((hmoved w).trans hset)]
            rfl
      | some c =>
          -- the attempt, here and in another world that has it
          have hloop := requestLoop_attempt n err status hset
          have hloop' := fun w time =>
            requestLoop_attempt n err status (s := s.moved w time) ((hmoved w).trans hset)
          have hkept : ∀ w : Outside δ, (w.1 0).applied = false →
              ((R.world base).perform w c).2.2 = w.2 := by
            intro w h
            simp only [Service.world, h, Bool.false_eq_true, if_false]
          cases hsucc : (s.world.1 0).attempt.succeeded with
          | true =>
              rw [hsucc, if_pos rfl] at hloop
              refine ⟨1, ?_, fun hno i hi => ?_, fun w time hsame =>
                ⟨((R.world base).perform w c).2.2, ?_, fun h => hkept w (h 0 (by omega))⟩⟩
              · rw [hloop]
                rfl
              · rw [hloop] at hno
                rwa [show i = 0 by omega]
              · have h0 := hsame 0 (by omega)
                rw [hloop, hloop', h0, hsucc, if_pos rfl, perform_moved c time h0]
                rfl
          | false =>
              rw [hsucc, if_neg Bool.false_ne_true] at hloop
              obtain ⟨j, hrest, hfailed, hreplay⟩ := ih (s.world.1 0).attempt.err
                (s.world.1 0).attempt.status_code
                ((s.perform (R.world base) c).2.afterFailure (R.world base) method)
              have hafter : ((s.perform (R.world base) c).2.afterFailure (R.world base)
                  method).world = ((R.world base).perform s.world c).2 :=
                world_onlyAttempts.afterFailure _
              rw [hafter] at hrest hfailed hreplay
              refine ⟨1 + j, ?_, fun hno i hi => ?_, fun w time hsame => ?_⟩
              · rw [hloop, hrest, ← later_later]
                rfl
              · rw [hloop] at hno
                cases i with
                | zero => exact Attempt.not_is200 hsucc
                | succ i => exact hfailed hno i (by omega)
              · have h0 := hsame 0 (by omega)
                obtain ⟨t, hrun, hkeep⟩ := hreplay ((R.world base).perform w c).2 time
                  hsame.snd
                refine ⟨t, ?_, fun h => ?_⟩
                · rw [hloop, hloop', h0, hsucc, if_neg Bool.false_ne_true, perform_moved c time h0,
                    afterFailure_moved, hrun, ← later_later]
                  rfl
                · have hlater : ∀ i < j, (((R.world base).perform w c).2.1 i).applied = false :=
                    fun i hi => h (i + 1) (by omega)
                  exact (hkeep hlater).trans (hkept w (h 0 (by omega)))

theorem performRequest_takes (R : Service Loc δ) (base : Bytes) (s : App (Outside δ))
    (url : Bytes) (method : Method) (post_field : Bytes) :
    ∃ j, RequestTakes (fun s => performRequest (R.world base) s url method post_field) s j :=
  requestLoop_takes 5 ESP_FAIL (-1) s

/-! ### Signing in again -/

/-- **A call read `j` outcomes.** In every world with the same attempts it returns the same. -/
structure Takes (call : App (Outside δ) → Option (EspErr × App (Outside δ)))
    (s : App (Outside δ)) (r : EspErr) (t : App (Outside δ)) (j : ℕ) : Prop where
  rest : t.world.1 = later j s.world.1
  replay : ∀ w time, SameAttempts j s.world.1 w.1 →
    ∃ x time', call (s.moved w time) = some (r, t.moved (later j w.1, x) time')

variable {s t : App (Outside δ)} {r : EspErr}

/-- A call that makes one request and ends without another, with what it makes of its answer. -/
theorem takes_of_request {call : App (Outside δ) → Option (EspErr × App (Outside δ))}
    {done : HttpRet × App (Outside δ) → Option (EspErr × App (Outside δ))}
    (hcall : ∀ w time, call (s.moved w time)
      = done (performRequest (R.world base) (s.asJson.moved w time) url method post_field))
    (hdone : ∀ ret u r t, done (ret, u) = some (r, t) → t.world = u.world ∧
      ∀ w time, ∃ time', done (ret, u.moved w time) = some (r, t.moved w time'))
    (hret : call s = some (r, t)) : ∃ j, Takes call s r t j := by
  obtain ⟨j, hrest, -, hreplay⟩ := performRequest_takes R base s.asJson url method post_field
  have hself : done (performRequest (R.world base) s.asJson url method post_field) = some (r, t) :=
    (hcall s.world s.auth_obtained_time).symm.trans hret
  obtain ⟨hworld, hagain⟩ := hdone _ _ _ _ hself
  refine ⟨j, ?_, fun w time hsame => ?_⟩
  · rw [hworld]
    exact hrest
  · obtain ⟨x, hrun, -⟩ := hreplay w time hsame
    obtain ⟨time', htime⟩ := hagain (later j w.1, x) time
    refine ⟨x, time', ?_⟩
    rw [hcall]
    exact (congrArg done hrun).trans htime

/-- What `getAuthToken` makes of the answer to its request. -/
def gotAuthToken {σ : Type} (W : World σ) (answer : HttpRet × App σ) : Option (EspErr × App σ) :=
  if answer.1.is200 then do
    let (text, s) := answer.2.readBuffer
    let (auth_token, auth_expires_in) ← authTokenOf W.printReal text
    some (ESP_OK, { s with
      auth_token := auth_token
      auth_expires_in := auth_expires_in
      auth_obtained_time := W.time s.world })
  else some (ESP_FAIL, answer.2)

theorem getAuthToken_takes (hret : getAuthToken (R.world base) s = some (r, t)) :
    ∃ j, Takes (getAuthToken (R.world base)) s r t j := by
  have hcall : ∀ w time, getAuthToken (R.world base) (s.moved w time)
      = gotAuthToken (R.world base) (performRequest (R.world base) (s.asJson.moved w time)
          s.auth_url .post (token_post_data s.refresh_token)) := fun _ _ => rfl
  refine takes_of_request hcall (fun ret u r t hgot => ?_) hret
  simp only [gotAuthToken] at hgot ⊢
  split at hgot
  · simp only [Option.bind_eq_bind, Option.bind_eq_some_iff, Option.some.injEq,
      Prod.mk.injEq] at hgot
    obtain ⟨⟨token, life⟩, htoken, rfl, rfl⟩ := hgot
    refine ⟨rfl, fun w time => ⟨(R.world base).time w, ?_⟩⟩
    have htoken' : authTokenOf (R.world base).printReal (u.moved w time).readBuffer.1
        = some (token, life) := htoken
    rw [if_pos ‹_›, htoken']
    rfl
  · simp only [Option.some.injEq, Prod.mk.injEq] at hgot
    obtain ⟨rfl, rfl⟩ := hgot
    exact ⟨rfl, fun w time => ⟨time, if_neg ‹_›⟩⟩

/-- What `getRefreshToken` makes of the answer to its request. -/
def gotRefreshToken {σ : Type} (W : World σ) (answer : HttpRet × App σ) :
    Option (EspErr × App σ) :=
  if answer.1.is200 then do
    let (text, s) := answer.2.readBuffer
    let refresh_token ← refreshTokenOf W.printReal text
    some (ESP_OK, { s with refresh_token := refresh_token })
  else some (ESP_FAIL, answer.2)

theorem getRefreshToken_takes (hret : getRefreshToken (R.world base) s false = some (r, t)) :
    ∃ j, Takes (fun s => getRefreshToken (R.world base) s false) s r t j := by
  have hcall : ∀ w time, getRefreshToken (R.world base) (s.moved w time) false
      = gotRefreshToken (R.world base) (performRequest (R.world base) (s.asJson.moved w time)
          s.login_url .post (account_json s.user_account)) := fun _ _ => rfl
  refine takes_of_request hcall (fun ret u r t hgot => ?_) hret
  simp only [gotRefreshToken] at hgot ⊢
  split at hgot
  · simp only [Option.bind_eq_bind, Option.bind_eq_some_iff, Option.some.injEq,
      Prod.mk.injEq] at hgot
    obtain ⟨token, htoken, rfl, rfl⟩ := hgot
    refine ⟨rfl, fun w time => ⟨time, ?_⟩⟩
    have htoken' : refreshTokenOf (R.world base).printReal (u.moved w time).readBuffer.1
        = some token := htoken
    rw [if_pos ‹_›, htoken']
    rfl
  · simp only [Option.some.injEq, Prod.mk.injEq] at hgot
    obtain ⟨rfl, rfl⟩ := hgot
    exact ⟨rfl, fun w time => ⟨time, if_neg ‹_›⟩⟩

variable {f g call : App (Outside δ) → Option (EspErr × App (Outside δ))}
  {t' u v : App (Outside δ)} {r' r'' : EspErr} {j k : ℕ}

/-- A call that ends with a call it makes. -/
theorem Takes.last (hf : Takes f s r t j) (hworld : v.world = t.world)
    (hcall : ∀ w time w₁ time₁, f (s.moved w time) = some (r, t.moved w₁ time₁) →
      call (s.moved w time) = some (r', v.moved w₁ time₁)) : Takes call s r' v j where
  rest := (congrArg Prod.fst hworld).trans hf.rest
  replay w time hsame := by
    obtain ⟨x, time', hrun⟩ := hf.replay w time hsame
    exact ⟨x, time', hcall _ _ _ _ hrun⟩

/-- A call that makes two calls, one after the other. -/
theorem Takes.andThen (hf : Takes f s r t j) (hg : Takes g t' r' u k)
    (hmid : t'.world = t.world) (hworld : v.world = u.world)
    (hcall : ∀ w time w₁ time₁ w₂ time₂, f (s.moved w time) = some (r, t.moved w₁ time₁) →
      g (t'.moved w₁ time₁) = some (r', u.moved w₂ time₂) →
        call (s.moved w time) = some (r'', v.moved w₂ time₂)) : Takes call s r'' v (j + k) where
  rest := by
    rw [hworld, hg.rest, hmid, hf.rest, later_later]
  replay w time hsame := by
    obtain ⟨x, time', hrun⟩ := hf.replay w time hsame.fst
    have hlater : SameAttempts k t'.world.1 (later j w.1) := by
      rw [hmid, hf.rest]
      exact hsame.snd
    obtain ⟨x', time'', hrun'⟩ := hg.replay (later j w.1, x) time' hlater
    refine ⟨x', time'', ?_⟩
    rw [← later_later]
    exact hcall _ _ _ _ _ _ hrun hrun'

theorem loginUserAccount_takes {account : UserAccount}
    (hret : loginUserAccount (R.world base) s account = some (r, t)) :
    ∃ j, Takes (fun s => loginUserAccount (R.world base) s account) s r t j := by
  simp only [loginUserAccount, signIn, Option.bind_eq_bind, Option.bind_eq_some_iff] at hret
  obtain ⟨⟨err₁, s₁⟩, hrefresh, hret⟩ := hret
  obtain ⟨j, hj⟩ := getRefreshToken_takes hrefresh
  have hfirst : Takes (fun s => getRefreshToken (R.world base)
      { s with user_account := account } false) s err₁ s₁ j := ⟨hj.rest, hj.replay⟩
  by_cases hfail : err₁ ≠ ESP_OK
  · rw [if_pos hfail, Option.some.injEq, Prod.mk.injEq] at hret
    obtain ⟨rfl, rfl⟩ := hret
    refine ⟨j, hfirst.last rfl fun w time w₁ time₁ hrun => ?_⟩
    dsimp only at hrun
    simp only [loginUserAccount, signIn, hrun, Option.bind_eq_bind, Option.bind_some, if_pos hfail]
  · rw [if_neg hfail, Option.bind_eq_some_iff] at hret
    obtain ⟨⟨err₂, s₂⟩, hauth, hret⟩ := hret
    obtain ⟨k, hk⟩ := getAuthToken_takes hauth
    by_cases hfail₂ : err₂ ≠ ESP_OK
    · rw [if_pos hfail₂, Option.some.injEq, Prod.mk.injEq] at hret
      obtain ⟨rfl, rfl⟩ := hret
      refine ⟨j + k, hfirst.andThen hk rfl rfl fun w time w₁ time₁ w₂ time₂ hrun hrun₂ => ?_⟩
      dsimp only at hrun
      have hauth₂ : getAuthToken (R.world base) (s₁.moved w₁ time₁).clearHTTPBuffer
        = some (err₂, s₂.moved w₂ time₂) := hrun₂
      simp only [loginUserAccount, signIn, hrun, hauth₂, Option.bind_eq_bind, Option.bind_some,
        if_neg hfail, if_pos hfail₂]
    · rw [if_neg hfail₂, Option.some.injEq, Prod.mk.injEq] at hret
      obtain ⟨rfl, rfl⟩ := hret
      refine ⟨j + k, hfirst.andThen hk rfl rfl fun w time w₁ time₁ w₂ time₂ hrun hrun₂ => ?_⟩
      dsimp only at hrun
      have hauth₂ : getAuthToken (R.world base) (s₁.moved w₁ time₁).clearHTTPBuffer
        = some (err₂, s₂.moved w₂ time₂) := hrun₂
      simp only [loginUserAccount, signIn, hrun, hauth₂, Option.bind_eq_bind, Option.bind_some,
        if_neg hfail, if_neg hfail₂]
      rfl

/-- **Signing in again** reads a number of outcomes, and nothing else of what is outside has a
part in the token it brings. -/
theorem forceRefreshAuth_takes (hret : forceRefreshAuth (R.world base) s = some (r, t)) :
    ∃ j, Takes (forceRefreshAuth (R.world base)) s r t j := by
  simp only [forceRefreshAuth, Option.bind_eq_bind, Option.bind_eq_some_iff] at hret
  obtain ⟨⟨err₁, s₁⟩, hauth, hret⟩ := hret
  obtain ⟨j, hj⟩ := getAuthToken_takes hauth
  by_cases hok : err₁ = ESP_OK
  · rw [if_pos hok, Option.some.injEq, Prod.mk.injEq] at hret
    obtain ⟨rfl, rfl⟩ := hret
    refine ⟨j, hj.last rfl fun w time w₁ time₁ hrun => ?_⟩
    simp only [forceRefreshAuth, hrun, Option.bind_eq_bind, Option.bind_some, if_pos hok]
    rfl
  · rw [if_neg hok] at hret
    obtain ⟨k, hk⟩ := loginUserAccount_takes hret
    refine ⟨j + k, hj.andThen hk rfl rfl fun w time w₁ time₁ w₂ time₂ hrun hrun₂ => ?_⟩
    simp only [forceRefreshAuth, hrun, Option.bind_eq_bind, Option.bind_some, if_neg hok]
    exact hrun₂

/-! ### A token that the URL cannot hold -/

/-- The same attempt, applied only if it says so. -/
def WriteOutcome.withheld (o : WriteOutcome) : WriteOutcome :=
  ⟨o.attempt, (HttpRet.mk o.attempt.err o.attempt.status_code).is200, fun herr hstatus => by
    simp [HttpRet.is200, herr, hstatus]⟩

/-- What a round does to the client is what its request does. -/
theorem sendOnce_app {σ : Type} (W : World σ) (d : Rtdb σ) (method : Method)
    (path json_str : CStr) :
    ((d.sendOnce W method path json_str).1, (d.sendOnce W method path json_str).2.app)
      = performRequest W d.app.asJson (d.putUrl path) method json_str.bytes :=
  rfl

variable {d d₁ d₂ : Rtdb (Outside δ)} {path json_str : CStr}

/-- A round that does not return 200 can be made again with the same attempts, none of them
applied. -/
theorem sendOnce_again {ret : HttpRet}
    (hsend : d.sendOnce (R.world base) .put path json_str = (ret, d₁)) (hno : ret.is200 = false) :
    ∃ j, d₁.app.world.1 = later j d.app.world.1 ∧ ∀ o t,
      (∀ i < j, o i = (d.app.world.1 i).withheld) →
        ∃ e, (d.inWorld (o, t)).sendOnce (R.world base) .put path json_str = (ret, e) ∧
          e.app = d₁.app.moved (later j o, t) d.app.auth_obtained_time := by
  obtain ⟨j, hrest, hfailed, hreplay⟩ := performRequest_takes R base d.app.asJson (d.putUrl path)
    .put json_str.bytes
  have hreq : performRequest (R.world base) d.app.asJson (d.putUrl path) .put json_str.bytes
      = (ret, d₁.app) := by
    rw [← sendOnce_app, hsend]
  rw [hreq] at hrest hfailed hreplay
  refine ⟨j, hrest, fun o t hread => ?_⟩
  have hsame : SameAttempts j d.app.world.1 o := by
    intro i hi
    rw [hread i hi]
    rfl
  have hunapplied : ∀ i < j, (o i).applied = false := by
    intro i hi
    rw [hread i hi]
    exact hfailed hno i hi
  obtain ⟨t', hrun, hkeep⟩ := hreplay (o, t) d.app.auth_obtained_time hsame
  obtain rfl : t' = t := hkeep hunapplied
  rcases hround : (d.inWorld (o, t')).sendOnce (R.world base) .put path json_str with ⟨ret', e⟩
  have hpair : (ret', e.app) = (ret, d₁.app.moved (later j o, t') d.app.auth_obtained_time) := by
    rw [← hrun, ← congrArg (fun p => (p.1, p.2.app)) hround]
    rfl
  obtain ⟨rfl, happ⟩ := Prod.mk.inj hpair
  exact ⟨e, rfl, happ⟩

/-- Signing in again brings the same token in every world with the same attempts; it leaves the
database alone, and the handle elsewhere. -/
theorem renew_again {base : CStr} (hsign : SignInElsewhere R base d₁.app.login_url d₁.app.auth_url)
    (hrenew : d₁.renew (forceRefreshAuth (R.world base.bytes)) = some d₂) :
    ∃ k, ∀ o t time, SameAttempts k d₁.app.world.1 o → ∀ e : Rtdb (Outside δ),
      e.app = d₁.app.moved (o, t) time →
        ∃ e', e.renew (forceRefreshAuth (R.world base.bytes)) = some e' ∧
          e'.base_database_url = e.base_database_url ∧
          e'.app.auth_token = d₂.app.auth_token ∧ e'.app.world = (later k o, t) ∧
          R.Away base.bytes e'.app := by
  simp only [Rtdb.renew, Option.map_eq_some_iff] at hrenew
  obtain ⟨⟨err, app⟩, hcall, rfl⟩ := hrenew
  obtain ⟨k, hk⟩ := forceRefreshAuth_takes hcall
  refine ⟨k, fun o t time hsame e happ => ?_⟩
  obtain ⟨t', time', hrun⟩ := hk.replay (o, t) time hsame
  have hsign' : SignInElsewhere R base (d₁.app.moved (o, t) time).login_url
    (d₁.app.moved (o, t) time).auth_url := hsign
  have hsame' : t' = t := (forceRefreshAuth_leavesDb (world_signsIn hsign') hrun).same
  refine ⟨{ e with app := app.moved (later k o, t') time' }, ?_, rfl, rfl, ?_,
    forceRefreshAuth_away hsign' hrun⟩
  · rw [Rtdb.renew, happ, hrun]
    rfl
  · rw [hsame']

/-- **A `putData` that comes by a token its URL cannot hold.** If there is such a run, there is one
for every content of the database in which `ESP_OK` is returned and nothing is set. -/
theorem putData_unrenewed
    (hsign : SignInElsewhere R d.base_database_url d.app.login_url d.app.auth_url)
    (hnot : ¬ R.RenewsAccepted d.base_database_url.bytes d path json_str) (t : δ) :
    ∃ o, R.putReturns d.base_database_url.bytes (d.inWorld (o, t)) path json_str = some ESP_OK ∧
      (R.afterPut d.base_database_url.bytes (d.inWorld (o, t)) path json_str).app.world.2 = t := by
  simp only [Service.RenewsAccepted, not_forall, Bool.not_eq_true] at hnot
  obtain ⟨ret, d₁, d₂, hfirst, hno, h401, hrenew, haccepts⟩ := hnot
  obtain ⟨hbase₁, hlogin, hauth⟩ := sendOnce_frame hfirst
  have hsign₁ : SignInElsewhere R d.base_database_url d₁.app.login_url d₁.app.auth_url := by
    rw [hlogin, hauth]
    exact hsign
  obtain ⟨hleaves, hbase₂⟩ := (world_signsIn hsign₁).renew hrenew
  obtain ⟨j, hrest, hround⟩ := sendOnce_again hfirst hno
  obtain ⟨k, hagain⟩ := renew_again hsign₁ hrenew
  -- what the run has read stays, but for what is applied; what comes next is granted
  set o : ℕ → WriteOutcome := fun i =>
    if i < j + k then (d.app.world.1 i).withheld else .granted with ho
  have hread : ∀ i < j + k, o i = (d.app.world.1 i).withheld := fun i hi => if_pos hi
  have hsame : SameAttempts (j + k) d.app.world.1 o := by
    intro i hi
    rw [hread i hi]
    rfl
  obtain ⟨e₁, hfirst', happ⟩ := hround o t fun i hi => hread i (by omega)
  have hnext : SameAttempts k d₁.app.world.1 (later j o) := by
    rw [hrest]
    exact hsame.snd
  obtain ⟨e₂, hrenew', hbase', htoken, hworld, held, hheld, hnone⟩ :=
    hagain (later j o) t d.app.auth_obtained_time hnext e₁ happ
  have hurl : R.accepts (e₂.putUrl path) = false := by
    rw [← haccepts, Rtdb.putUrl, Rtdb.putUrl, htoken, hbase', (sendOnce_frame hfirst').1, hbase₂,
      hbase₁]
    rfl
  have hgranted : e₂.app.world.1 0 = .granted := by
    rw [hworld, later_later]
    exact if_neg (by omega)
  -- the second round
  obtain ⟨e₃, hsecond, hlast⟩ := sendOnce_elsewhere hheld hnone hurl hgranted json_str
  have hput : putData (R.world d.base_database_url.bytes) (d.inWorld (o, t)) path json_str
      = _ := sendData_twice hfirst' hno h401 hrenew' hsecond
  refine ⟨o, ?_⟩
  rw [Service.putReturns, Service.afterPut, hput]
  refine ⟨rfl, hlast.trans ?_⟩
  rw [hworld]

end Moved

/-! ### All sequences of outcomes -/

section Main

variable {Loc δ : Type}

/-- **What `putData` guarantees.** For every state of the client, every path and every JSON text:
a run in which the write can be sent is all or nothing; and all runs are, whatever the content of
the database and the outcomes, exactly when in all of them the write can be sent. -/
theorem putData_sets_iff (R : Service Loc δ) (d : Rtdb (Outside δ)) (path json_str : CStr)
    (hsign : SignInElsewhere R d.base_database_url d.app.login_url d.app.auth_url) :
    (∀ w, R.Sendable d.base_database_url.bytes (d.inWorld w) path json_str →
      R.PutsOnce d.base_database_url.bytes (d.inWorld w) path json_str) ∧
    ((∀ w, R.PutsOnce d.base_database_url.bytes (d.inWorld w) path json_str) ↔
      ∀ w, R.Sendable d.base_database_url.bytes (d.inWorld w) path json_str) := by
  have hsends : ∀ w, R.Sendable d.base_database_url.bytes (d.inWorld w) path json_str →
      R.PutsOnce d.base_database_url.bytes (d.inWorld w) path json_str := by
    rintro w (⟨haccepts, hnode, hrenews⟩ | ⟨hclient, haccepts⟩)
    · obtain ⟨loc, hloc⟩ := Option.isSome_iff_exists.mp hnode
      exact putsOnce_of_accepted (d := d.inWorld w) hsign haccepts hloc hrenews
    · exact putsOnce_no_handle (d := d.inWorld w) hclient haccepts _ json_str
  refine ⟨hsends, fun h w => ?_, fun h w => hsends w (h w)⟩
  have hset : ∀ o t, R.putReturns d.base_database_url.bytes (d.inWorld (o, t)) path json_str
      = some ESP_OK → ∃ loc, R.node path.bytes = some loc ∧
        (R.afterPut d.base_database_url.bytes (d.inWorld (o, t)) path json_str).app.world.2
          = R.set t loc json_str.bytes := fun o t hok => (h (o, t)).done hok
  cases haccepts : R.accepts (d.putUrl path) with
  | true =>
      obtain ⟨loc, hloc, -⟩ := hset grants w.2 (putData_granted (Or.inr haccepts) json_str w.2)
      refine Or.inl ⟨haccepts, by rw [hloc]; rfl, ?_⟩
      by_contra hnot
      -- a content that the write would change is left as it is
      obtain ⟨t, ht⟩ := R.changes loc json_str.bytes
      obtain ⟨o, hok, hsame⟩ := putData_unrenewed (d := d.inWorld w) hsign hnot t
      obtain ⟨loc', hloc', hnew⟩ := hset o t hok
      obtain rfl : loc = loc' := Option.some.inj (hloc.symm.trans hloc')
      exact ht (hnew.symm.trans hsame)
  | false =>
      cases hclient : d.app.client with
      | none => exact Or.inr ⟨hclient, haccepts⟩
      | some c =>
          have hhandle : d.app.client ≠ none := by simp [hclient]
          obtain ⟨loc, hloc, -⟩ := hset grants w.2 (putData_granted (Or.inl hhandle) json_str w.2)
          obtain ⟨t, ht⟩ := R.changes loc json_str.bytes
          obtain ⟨hok, hsame⟩ := putData_unaccepted ⟨c, hclient, rfl⟩ hsign haccepts json_str t
          obtain ⟨loc', hloc', hnew⟩ := hset lateGrant t hok
          obtain rfl : loc = loc' := Option.some.inj (hloc.symm.trans hloc')
          exact absurd (hnew.symm.trans hsame) ht

end Main

/-! ### A database of texts -/

/-- Locations with their JSON texts. -/
def locations : Database Bytes (Bytes → Option Bytes) where
  node path := if PathText path then some path else none
  set t path json := Function.update t path (some json)
  other
    | .delete, t, path, _ => Function.update t path none
    | _, t, _, _ => t
  plain path loc h := by
    by_contra hpath
    rw [if_neg hpath] at h
    exact absurd h (by simp)
  set_set t path json := Function.update_idem _ _ t
  changes path json := ⟨fun _ => none, fun h => by simpa using congrFun h path⟩

/-- A service whose URL parser rejects every URL with a space in it. -/
def strictService : Service Bytes (Bytes → Option Bytes) where
  toDatabase := locations
  accepts url := !url.contains 32
  time _ := 0
  printReal := id

/-- A client of this service. -/
def strictClient (outcomes : ℕ → WriteOutcome) : Rtdb (Outside (Bytes → Option Bytes)) :=
  ⟨.of (ascii "https://db"), App.new (strictService.world (ascii "https://db")) (ascii "key")
    (zeroed HTTP_RECV_BUFFER_SIZE) (outcomes, fun _ => none), []⟩

/-- The acknowledgement of the first attempt is lost. -/
def losesFirst : ℕ → WriteOutcome
  | 0 => ⟨⟨[.error], ESP_FAIL, -1, false⟩, true, fun _ _ => rfl⟩
  | _ + 1 => .granted

/-- The requests that sign in go to other hosts. -/
theorem strictClient_signIn (outcomes : ℕ → WriteOutcome) :
    SignInElsewhere strictService (strictClient outcomes).base_database_url
      (strictClient outcomes).app.login_url (strictClient outcomes).app.auth_url := by
  constructor <;> rintro url (rfl | rfl) <;> rfl

theorem putData_sets_lossy :
    strictService.accepts ((strictClient losesFirst).putUrl (.of (ascii "/h/k"))) = true ∧
      strictService.PutsOnce (ascii "https://db") (strictClient losesFirst) (.of (ascii "/h/k"))
        (.of (ascii "1")) := by
  have haccepts : strictService.accepts ((strictClient losesFirst).putUrl (.of (ascii "/h/k")))
      = true := by
    decide
  refine ⟨haccepts, (putData_sets_iff strictService (strictClient losesFirst) (.of (ascii "/h/k"))
    (.of (ascii "1")) (strictClient_signIn losesFirst)).1 (losesFirst, fun _ => none)
    (Or.inl ⟨haccepts, by decide, fun ret d₁ d₂ hfirst hno _ _ => ?_⟩)⟩
  have hok : ((strictClient losesFirst).sendOnce (strictService.world (ascii "https://db")) .put
      (.of (ascii "/h/k")) (.of (ascii "1"))).1.is200 = true := by
    decide +kernel
  have hsent : (strictClient losesFirst).sendOnce (strictService.world (ascii "https://db")) .put
      (.of (ascii "/h/k")) (.of (ascii "1")) = (ret, d₁) := hfirst
  rw [hsent] at hok
  exact absurd hok (by simp [hno])

/-- The client after a first `putData`. -/
def clientAtH : Rtdb (Outside (Bytes → Option Bytes)) :=
  strictService.afterPut (ascii "https://db") (strictClient grants) (.of (ascii "/h"))
    (.of (ascii "1"))

/-- **Another path is set.** After a `putData` for `/h`, one for `/a b` returns `ESP_OK` and has
set `/h`. -/
theorem put_overwrites_other :
    ¬ strictService.PutsOnce (ascii "https://db") clientAtH (.of (ascii "/a b"))
      (.of (ascii "2")) := by
  intro h
  have hok : strictService.putReturns (ascii "https://db") clientAtH (.of (ascii "/a b"))
      (.of (ascii "2")) = some ESP_OK := by
    decide +kernel
  obtain ⟨loc, hloc, hset⟩ := h.done hok
  obtain rfl : ascii "/a b" = loc := by
    have hnode : strictService.node (CStr.of (ascii "/a b")).bytes = some (ascii "/a b") := by
      decide
    exact Option.some.inj (hnode.symm.trans hloc)
  have hnow : (strictService.afterPut (ascii "https://db") clientAtH (.of (ascii "/a b"))
      (.of (ascii "2"))).app.world.2 (ascii "/h") = some (ascii "2") := by
    decide +kernel
  have hbefore : clientAtH.app.world.2 (ascii "/h") = some (ascii "1") := by
    decide +kernel
  rw [hset] at hnow
  have hne : ascii "/h" ≠ ascii "/a b" := by decide
  have hkept : strictService.set clientAtH.app.world.2 (ascii "/a b")
      (CStr.of (ascii "2")).bytes (ascii "/h") = clientAtH.app.world.2 (ascii "/h") :=
    Function.update_of_ne hne (some (ascii "2")) _
  rw [hkept, hbefore] at hnow
  exact absurd hnow (by decide)

end PppAmb
