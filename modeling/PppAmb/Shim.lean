import PppAmb.Rtdb
import PppAmb.Run
import PppAmb.Response

/-!
# The C Interface

`components/esp_firebase/firebase_c_shim.cpp`: the functions through which `main.c` reaches
the Firebase client, over the two pointers `g_app` and `g_rtdb`.

## Main results

* `firebase_init_cases`: what a call of `firebase_init` does to the two pointers.
* `initSound_iff`: in every run of calls, `firebase_init` returns 0 only for an app that is
  logged in and has a database client, and no later call lacks the client, if and only if
  `firebase_init` is never called on an app without a client.
* `second_init_returns_zero`: after a failed login the next call of `firebase_init` returns 0.
-/

namespace PppAmb

/-- `Privado.h`, which is not part of the repository. -/
structure Privado where
  API_KEY : Bytes
  USER_EMAIL : Bytes
  USER_PASSWORD : Bytes
  DATABASE_URL : CStr

/-- The static variables of the interface. A client works on the app, so there is none
without an app. `world` is the outside as long as there is no app. The last two fields are
bookkeeping that the program does not have: what the last login of `firebase_init` returned,
and whether a call of `firebase_init` has returned 0. -/
structure Shim (σ : Type) where
  world : σ
  g_app : Option (App σ)
  g_rtdb : Option CStr
  attached : g_rtdb.isSome → g_app.isSome
  login : Option EspErr
  initialised : Bool

/-- The variables when the program starts. -/
def Shim.start {σ : Type} (w : σ) : Shim σ :=
  ⟨w, none, none, by simp, none, false⟩

section Operations

variable {σ : Type} (W : World σ) (P : Privado)

/-- The logins of `firebase_init`: if the first one fails, register and log in again. The
result is that of the last login. -/
def firstLogin (s : App σ) : Option (EspErr × App σ) := do
  let (err, s) ← loginUserAccount W s s.user_account
  if err ≠ ESP_OK then
    let (registered, s) ← registerUserAccount W s s.user_account
    if registered = ESP_OK then loginUserAccount W s s.user_account else some (err, s)
  else some (err, s)

/-- `firebase_init`. The array of a new app may hold any bytes. -/
def firebase_init (local_response_buffer : Bytes) (s : Shim σ) : Option (Int × Shim σ) :=
  if s.g_app.isSome then some (0, { s with initialised := true })
  else do
    let app := App.new W P.API_KEY local_response_buffer s.world
    let (err, app) ← firstLogin W { app with user_account := ⟨P.USER_EMAIL, P.USER_PASSWORD⟩ }
    let s : Shim σ :=
      { s with g_app := some app, attached := fun _ => rfl, login := some err }
    if err ≠ ESP_OK then some (-2, s)
    else
      some (0, { s with
        g_rtdb := some P.DATABASE_URL
        attached := fun _ => rfl
        initialised := true })

/-- `firebase_refresh_token`. -/
def firebase_refresh_token (s : Shim σ) : Option (Int × Shim σ) :=
  match s.g_app with
  | none => some (-1, s)
  | some app => do
      let (err, app) ← forceRefreshAuth W app
      let s : Shim σ := { s with g_app := some app, attached := fun _ => rfl }
      some (if err = ESP_OK then 0 else -2, s)

/-- What the other functions do: without a client they fail with -1, else they run the
operation of the client. -/
def Shim.onRtdb (s : Shim σ) (f : Rtdb σ → Option Int × Rtdb σ) : Option (Int × Shim σ) :=
  match s.g_rtdb, s.g_app with
  | some base_database_url, some app =>
      match f ⟨base_database_url, app, []⟩ with
      | (none, _) => none
      | (some r, d) => some (r, { s with g_app := some d.app, attached := fun _ => rfl })
  | _, _ => some (-1, s)

/-- `err == ESP_OK ? 0 : (int)err`. -/
def asInt (r : Option EspErr × Rtdb σ) : Option Int × Rtdb σ :=
  (r.1.map fun err => if err = ESP_OK then 0 else err, r.2)

/-- `firebase_push`. -/
def firebase_push (path json : CStr) (s : Shim σ) : Option (Int × Shim σ) :=
  s.onRtdb fun d => asInt (postData W d path json)

/-- `firebase_putData`. -/
def firebase_putData (path json : CStr) (s : Shim σ) : Option (Int × Shim σ) :=
  s.onRtdb fun d => asInt (putData W d path json)

/-- `firebase_delete`. -/
def firebase_delete (path : CStr) (s : Shim σ) : Option (Int × Shim σ) :=
  s.onRtdb fun d => asInt (deleteData W d path)

/-- `firebase_trim_days`. -/
def firebase_trim_days (root_path : CStr) (max_days : Int) (s : Shim σ) : Option (Int × Shim σ) :=
  s.onRtdb fun d => asInt (trimDays W d root_path max_days)

/-- `firebase_trim_oldest_batch`. -/
def firebase_trim_oldest_batch (root_path : CStr) (batch_size : Int) (s : Shim σ) :
    Option (Int × Shim σ) :=
  s.onRtdb fun d => trimOldestBatch W d root_path batch_size

end Operations

/-! ### Runs of calls -/

/-- The functions of the interface that use the database client. -/
inductive ClientCall
  | push (path json : CStr)
  | putData (path json : CStr)
  | delete (path : CStr)
  | trimDays (root_path : CStr) (max_days : Int)
  | trimOldestBatch (root_path : CStr) (batch_size : Int)

/-- The calls of the interface. -/
inductive ShimCall
  | init (local_response_buffer : Bytes)
  | refreshToken
  | client (call : ClientCall)

section Runs

variable {σ : Type} (W : World σ) (P : Privado)

/-- The function a call names. -/
def ClientCall.run (s : Shim σ) : ClientCall → Option (Int × Shim σ)
  | .push path json => firebase_push W path json s
  | .putData path json => firebase_putData W path json s
  | .delete path => firebase_delete W path s
  | .trimDays root_path max_days => firebase_trim_days W root_path max_days s
  | .trimOldestBatch root_path batch_size => firebase_trim_oldest_batch W root_path batch_size s

/-- The function a call names. -/
def ShimCall.run (s : Shim σ) : ShimCall → Option (Int × Shim σ)
  | .init local_response_buffer => firebase_init W P local_response_buffer s
  | .refreshToken => firebase_refresh_token W s
  | .client call => call.run W s

/-- The state after a call; a program that has stopped makes no further calls. -/
def ShimCall.exec (s : Option (Shim σ)) (call : ShimCall) : Option (Shim σ) :=
  s.bind fun s => (call.run W P s).map Prod.snd

/-- **The contract.** A call of `firebase_init` returns 0 only if the last login of the app
returned `ESP_OK` and the database client is there; once `firebase_init` has returned 0, no
function finds the client missing. -/
def ShimCall.Sound (s : Option (Shim σ)) : ShimCall → Prop
  | .init local_response_buffer =>
      ∀ before after, s = some before → firebase_init W P local_response_buffer before
        = some (0, after) → after.login = some ESP_OK ∧ after.g_rtdb.isSome
  | .refreshToken => True
  | .client _ => ∀ before, s = some before → before.initialised = true → before.g_rtdb.isSome

/-- The condition: `firebase_init` is not called on an app that has no client, as an earlier
call leaves it whose logins failed. -/
def ShimCall.NotHalfReady (s : Option (Shim σ)) : ShimCall → Prop
  | .init _ => ∀ before, s = some before → before.g_app.isSome → before.g_rtdb.isSome
  | .refreshToken | .client _ => True

variable {W P}

/-- What a call of `firebase_init` does: nothing if there is an app, else it makes one and
keeps it whatever becomes of the logins; only a login that succeeds brings the client. -/
inductive InitResult (P : Privado) (before : Shim σ) : Int → Shim σ → Prop
  | again (happ : before.g_app.isSome) : InitResult P before 0 { before with initialised := true }
  | failed {after : Shim σ} (happ : before.g_app = none) (hmade : after.g_app.isSome)
      (hrtdb : after.g_rtdb = before.g_rtdb) (hinit : after.initialised = before.initialised) :
      InitResult P before (-2) after
  | ready {after : Shim σ} (happ : before.g_app = none) (hmade : after.g_app.isSome)
      (hrtdb : after.g_rtdb = some P.DATABASE_URL) (hlogin : after.login = some ESP_OK) :
      InitResult P before 0 after

theorem firebase_init_cases {buf : Bytes} {before after : Shim σ} {r : Int}
    (h : firebase_init W P buf before = some (r, after)) : InitResult P before r after := by
  rw [firebase_init] at h
  by_cases happ : before.g_app.isSome
  · rw [if_pos happ, Option.some.injEq, Prod.mk.injEq] at h
    obtain ⟨rfl, rfl⟩ := h
    exact .again happ
  · rw [if_neg happ] at h
    simp only [Option.bind_eq_bind, Option.bind_eq_some_iff] at h
    obtain ⟨⟨err, app⟩, -, h⟩ := h
    have hnone : before.g_app = none := by simpa using happ
    by_cases herr : err = ESP_OK
    · simp only [herr, ne_eq, not_true_eq_false, if_false, Option.some.injEq, Prod.mk.injEq] at h
      obtain ⟨rfl, rfl⟩ := h
      exact .ready hnone rfl rfl rfl
    · simp only [herr, ne_eq, not_false_eq_true, if_true, Option.some.injEq, Prod.mk.injEq] at h
      obtain ⟨rfl, rfl⟩ := h
      exact .failed hnone rfl rfl rfl

/-- The calls other than `firebase_init` leave the client and the bookkeeping alone. -/
structure SameClient (before after : Shim σ) : Prop where
  rtdb : after.g_rtdb = before.g_rtdb
  login : after.login = before.login
  initialised : after.initialised = before.initialised

theorem firebase_refresh_token_same {before after : Shim σ} {r : Int}
    (h : firebase_refresh_token W before = some (r, after)) : SameClient before after := by
  rw [firebase_refresh_token] at h
  cases happ : before.g_app with
  | none =>
      simp only [happ, Option.some.injEq, Prod.mk.injEq] at h
      obtain ⟨-, rfl⟩ := h
      exact ⟨rfl, rfl, rfl⟩
  | some app =>
      simp only [happ, Option.bind_eq_bind, Option.bind_eq_some_iff, Option.some.injEq,
        Prod.mk.injEq] at h
      obtain ⟨⟨err, app'⟩, -, -, rfl⟩ := h
      exact ⟨rfl, rfl, rfl⟩

theorem Shim.onRtdb_same {before after : Shim σ} {f : Rtdb σ → Option Int × Rtdb σ} {r : Int}
    (h : before.onRtdb f = some (r, after)) : SameClient before after := by
  rw [Shim.onRtdb] at h
  split at h
  · split at h
    · exact absurd h (by simp)
    · simp only [Option.some.injEq, Prod.mk.injEq] at h
      obtain ⟨-, rfl⟩ := h
      exact ⟨rfl, rfl, rfl⟩
  · simp only [Option.some.injEq, Prod.mk.injEq] at h
    obtain ⟨-, rfl⟩ := h
    exact ⟨rfl, rfl, rfl⟩

theorem ClientCall.run_same {before after : Shim σ} {r : Int} {call : ClientCall}
    (h : call.run W before = some (r, after)) : SameClient before after := by
  cases call with
  | push path json => exact Shim.onRtdb_same (f := fun d => asInt (postData W d path json)) h
  | putData path json =>
      exact Shim.onRtdb_same (f := fun d => asInt (PppAmb.putData W d path json)) h
  | delete path => exact Shim.onRtdb_same (f := fun d => asInt (deleteData W d path)) h
  | trimDays root_path max_days =>
      exact Shim.onRtdb_same (f := fun d => asInt (PppAmb.trimDays W d root_path max_days)) h
  | trimOldestBatch root_path batch_size =>
      exact Shim.onRtdb_same
        (f := fun d => PppAmb.trimOldestBatch W d root_path batch_size) h

/-- The invariant: a client is there only after a successful login, and once `firebase_init`
has returned 0 it is there. -/
structure Shim.Ready (s : Shim σ) : Prop where
  login : s.g_rtdb.isSome → s.login = some ESP_OK
  client : s.initialised = true → s.g_rtdb.isSome

theorem Shim.ready_start (w : σ) : (Shim.start w).Ready :=
  ⟨by simp [Shim.start], by simp [Shim.start]⟩

theorem Shim.Ready.same {before after : Shim σ} (h : before.Ready) (hsame : SameClient before after) :
    after.Ready := by
  obtain ⟨hrtdb, hlogin, hinit⟩ := hsame
  refine ⟨?_, ?_⟩
  · rw [hrtdb, hlogin]
    exact h.login
  · rw [hrtdb, hinit]
    exact h.client

/-- A call of `firebase_init` on an app that has its client, or without an app, keeps the
invariant and the contract. -/
theorem Shim.Ready.init {before after : Shim σ} {r : Int} (h : before.Ready)
    (hwhole : before.g_app.isSome → before.g_rtdb.isSome) (hres : InitResult P before r after) :
    after.Ready ∧ (r = 0 → after.login = some ESP_OK ∧ after.g_rtdb.isSome) := by
  cases hres with
  | again happ =>
      have hclient := hwhole happ
      exact ⟨⟨h.login, fun _ => hclient⟩, fun _ => ⟨h.login hclient, hclient⟩⟩
  | failed happ _ hrtdb hinit =>
      have hnone : before.g_rtdb.isSome = false := by
        have hattached := before.attached
        simp only [happ, Option.isSome_none] at hattached
        simpa using hattached
      refine ⟨⟨fun hsome => ?_, fun hsome => ?_⟩, fun hr => absurd hr (by decide)⟩
      · rw [hrtdb, hnone] at hsome
        exact absurd hsome (by simp)
      · rw [hrtdb]
        exact h.client (hinit ▸ hsome)
  | ready _ _ hrtdb hlogin =>
      have hclient : after.g_rtdb.isSome := by simp [hrtdb]
      exact ⟨⟨fun _ => hlogin, fun _ => hclient⟩, fun _ => ⟨hlogin, hclient⟩⟩

/-- One call under the condition keeps the invariant and the contract. -/
theorem ShimCall.sound_step {s : Option (Shim σ)} {call : ShimCall}
    (hI : ∀ before, s = some before → before.Ready) (hC : call.NotHalfReady s) :
    call.Sound W P s ∧ ∀ after, call.exec W P s = some after → after.Ready := by
  cases s with
  | none =>
      refine ⟨?_, by simp [ShimCall.exec]⟩
      cases call <;> simp [ShimCall.Sound]
  | some before =>
      have hready := hI before rfl
      have hexec : ∀ {after : Shim σ}, call.exec W P (some before) = some after →
          ∃ r, call.run W P before = some (r, after) := by
        intro after h
        simp only [ShimCall.exec, Option.bind_some, Option.map_eq_some_iff] at h
        obtain ⟨⟨r, after'⟩, hrun, rfl⟩ := h
        exact ⟨r, hrun⟩
      cases call with
      | init buf =>
          refine ⟨?_, fun after h => ?_⟩
          · rintro s after heq hret
            obtain rfl := Option.some.inj heq
            exact (hready.init (hC before rfl) (firebase_init_cases hret)).2 rfl
          · obtain ⟨r, hret⟩ := hexec h
            exact (hready.init (hC before rfl) (firebase_init_cases hret)).1
      | refreshToken =>
          refine ⟨trivial, fun after h => ?_⟩
          obtain ⟨r, hret⟩ := hexec h
          exact hready.same (firebase_refresh_token_same hret)
      | client call =>
          refine ⟨?_, fun after h => ?_⟩
          · rintro s heq
            obtain rfl := Option.some.inj heq
            exact hready.client
          · obtain ⟨r, hret⟩ := hexec h
            exact hready.same (ClientCall.run_same hret)

/-- A call that keeps the contract meets the condition. -/
theorem ShimCall.notHalfReady_of_sound {s : Option (Shim σ)} {call : ShimCall}
    (h : call.Sound W P s) : call.NotHalfReady s := by
  cases call with
  | init buf =>
      intro before hs happ
      have hret : firebase_init W P buf before = some (0, { before with initialised := true }) := by
        rw [firebase_init, if_pos happ]
      exact (h before _ hs hret).2
  | refreshToken => trivial
  | client call => trivial

/-- **The contract of `firebase_init`.** For every outside, every run of calls from the start
of the program and every outcome of the requests: `firebase_init` returns 0 only for an app
that is logged in and has its client, and no function lacks the client afterwards, if and
only if `firebase_init` is never called on an app that has no client. -/
theorem initSound_iff (W : World σ) (P : Privado) (w : σ) (calls : List ShimCall) :
    Along (ShimCall.exec W P) (fun s call => call.Sound W P s) (some (Shim.start w)) calls ↔
      Along (ShimCall.exec W P) (fun s call => call.NotHalfReady s) (some (Shim.start w)) calls := by
  constructor
  · exact Along.of_invariant (I := fun _ => True)
      (fun s call _ hsound => ⟨call.notHalfReady_of_sound hsound, trivial⟩) trivial
  · refine Along.of_invariant (I := fun s => ∀ before, s = some before → before.Ready)
      (fun s call hI hC => ShimCall.sound_step hI hC) ?_
    rintro before heq
    obtain rfl := Option.some.inj heq
    exact Shim.ready_start w

end Runs

/-- Some entries for `Privado.h`. -/
def somePrivado : Privado :=
  ⟨ascii "key", ascii "user", ascii "password", .of (ascii "https://db")⟩

/-- **The second call of `firebase_init`.** Without a network the first call returns -2 and
leaves the app; the second one returns 0, with no login and no client. -/
theorem second_init_returns_zero :
    ¬ ∀ (W : World ℕ) (P : Privado) (calls : List ShimCall),
      Along (ShimCall.exec W P) (fun s call => call.Sound W P s) (some (Shim.start 0)) calls := by
  intro h
  have hsecond := (h offline somePrivado
    [.init (zeroed HTTP_RECV_BUFFER_SIZE), .init (zeroed HTTP_RECV_BUFFER_SIZE)]).2.1
  have hwhole := ShimCall.notHalfReady_of_sound hsecond
  exact absurd (hwhole _ rfl rfl) (by decide +kernel)

end PppAmb
