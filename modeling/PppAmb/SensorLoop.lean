import Mathlib.Data.List.Chain
import PppAmb.AuthContract
import PppAmb.ClientInvariant
import PppAmb.KeyOrder
import PppAmb.Sensors

/-!
# `sensor_task` as It Runs

`sensor_task` of `main/main.c` with the functions it calls: the sensors on their bus, and the
database through the C interface. What is outside is the bus, the network and the clocks; a
round is given the two times it reads.

A response may stop the program, which is `none` here. Two fields of the state are bookkeeping
that the program does not have: the samples read so far, and the times of the refreshes of the
token.

## Main results

* `refreshes_spaced`: over every run, the token is refreshed at most once in 50 minutes, and at
  the end of every round the last refresh is less than 50 minutes old.
* `sensor_task_attempts`: the task makes at most 55 attempts up to its loop, and at most 50 in every
  round of a run.
-/

namespace PppAmb

/-- What `time` and `esp_timer_get_time` return during one round. -/
structure Clock where
  now_epoch : Int64
  now_us : Int
  deriving DecidableEq

/-- The variables of `sensor_task`, the interface to the database, and the number of
transactions made on the bus. -/
structure SensorLoop (σ : Type) where
  data : SensorData
  first_send : Bool
  sample_count : ℕ
  sums : Sums
  sum_co2 : UInt32
  last_fecha_str : Bytes
  next_refresh_us : Int
  avg_size : ℚ
  approx_count : ℕ
  shim : Shim σ
  transactions : ℕ
  samples : List SensorData
  refreshes : List Int

/-- What becomes of the task: it deletes itself, or it is in its loop. -/
inductive TaskState (σ : Type)
  | deleted (shim : Shim σ)
  | looping (loop : SensorLoop σ)

/-- `"/historial_mediciones"`. -/
def historial_mediciones : CStr :=
  .of (ascii "/historial_mediciones")

/-- The variables as the machine of the records has them; it keeps the database and the
history apart. -/
def SensorLoop.vars {σ : Type} (s : SensorLoop σ) : Task where
  first_send := s.first_send
  sample_count := s.sample_count
  sums := s.sums
  sum_co2 := s.sum_co2
  last_fecha_str := s.last_fecha_str
  next_refresh_us := s.next_refresh_us
  avg_size := s.avg_size
  approx_count := s.approx_count
  db := .empty
  history := []

section Loop

variable {σ : Type} (W : World σ) (P : Privado) (B : I2c) (c : Setting)

/-- The beginning of a round: a successful read is counted and added up. -/
def SensorLoop.collect (s : SensorLoop σ) : SensorLoop σ :=
  let (ret, out, transactions) := sensors_read B c.arith (some s.data) s.transactions
  let data := out.getD s.data
  let s := { s with data := data, transactions := transactions }
  if ret = ESP_OK then
    { s with
      sample_count := s.sample_count + 1
      sums := s.sums.add c.arith data
      sum_co2 := s.sum_co2 + data.co2.toUInt32
      samples := s.samples ++ [data] }
  else s

/-- The retention: the oldest records are trimmed if there are too many. -/
def retain (avg_size : ℚ) (approx_count : ℕ) (shim : Shim σ) : Option (ℕ × Shim σ) :=
  let max_items := maxItems c.arith avg_size
  let high_water := (max_items + 50) % 2 ^ 32
  if approx_count > high_water then do
    let (deleted, shim) ← firebase_trim_oldest_batch W historial_mediciones 50 shim
    some (approxAfter approx_count deleted, shim)
  else some (approx_count, shim)

/-- A full batch is sent. What `firebase_putData` returns is not looked at. -/
def SensorLoop.send (s : SensorLoop σ) (now_epoch : Int64) : Option (SensorLoop σ) := do
  let record := s.vars.record c now_epoch
  let json := record.json c
  let (_, shim) ← firebase_putData W (.of (path_put record.tm.clave)) (.of json) s.shim
  let avg_size := nextAvgSize c.arith s.avg_size (cString json).length
  let (approx_count, shim) ← retain W c avg_size ((s.approx_count + 1) % 2 ^ 32) shim
  some { s with
    first_send := false
    last_fecha_str := s.vars.nextFecha record.tm.fecha
    avg_size := avg_size
    approx_count := approx_count
    shim := shim
    sample_count := 0
    sums := .zero
    sum_co2 := 0 }

/-- The end of a round: the token is refreshed when it is due. -/
def SensorLoop.refresh (s : SensorLoop σ) (now_us : Int) : Option (SensorLoop σ) :=
  if now_us ≥ s.next_refresh_us then do
    let (_, shim) ← firebase_refresh_token W s.shim
    some { s with
      shim := shim
      next_refresh_us := now_us + REFRESH_US
      refreshes := s.refreshes ++ [now_us] }
  else some s

/-- One round of the loop. -/
def SensorLoop.round (s : SensorLoop σ) (clock : Clock) : Option (SensorLoop σ) := do
  let s := s.collect B c
  let s ← if s.sample_count ≥ SAMPLES_PER_BATCH then s.send W c clock.now_epoch else some s
  s.refresh W clock.now_us

/-- The variables with which the loop is entered; `data` may hold anything. -/
def SensorLoop.enter (data : SensorData) (now_us : Int) (shim : Shim σ) : SensorLoop σ where
  data := data
  first_send := true
  sample_count := 0
  sums := .zero
  sum_co2 := 0
  last_fecha_str := []
  next_refresh_us := now_us + REFRESH_US
  avg_size := 256
  approx_count := 0
  shim := shim
  transactions := 0
  samples := []
  refreshes := []

/-- `sensor_task` up to its loop. The array `local_response_buffer` of the app may hold anything;
`now_us` is the time at which the first refresh is scheduled. -/
def sensor_task_start (local_response_buffer : Bytes) (data : SensorData) (now_us : Int)
    (shim : Shim σ) : Option (TaskState σ) := do
  let (ret, shim) ← firebase_init W P local_response_buffer shim
  if ret ≠ 0 then some (.deleted shim)
  else
    let (_, shim) ← firebase_delete W historial_mediciones shim
    some (.looping (.enter data now_us shim))

/-- The rounds of a run. -/
def SensorLoop.run (s : SensorLoop σ) (clocks : List Clock) : Option (SensorLoop σ) :=
  clocks.foldlM (SensorLoop.round W B c) s

/-- `sensor_task` with the rounds of a run. -/
def sensor_task (local_response_buffer : Bytes) (data : SensorData) (start_us : Int)
    (shim : Shim σ) (clocks : List Clock) : Option (TaskState σ) := do
  match ← sensor_task_start W P local_response_buffer data start_us shim with
  | .deleted shim => some (.deleted shim)
  | .looping s => (s.run W B c clocks).map .looping

theorem SensorLoop.run_snoc (s : SensorLoop σ) (clocks : List Clock) (clock : Clock) :
    s.run W B c (clocks ++ [clock]) = (s.run W B c clocks).bind fun s => s.round W B c clock := by
  rw [SensorLoop.run, List.foldlM_append]
  cases h : clocks.foldlM (SensorLoop.round W B c) s <;> simp [SensorLoop.run, h]

end Loop

/-! ### What the parts of a round do -/

section Parts

variable {σ : Type} {W : World σ} {P : Privado} {B : I2c} {c : Setting} {s s' : SensorLoop σ}

/-- The record of a full batch. -/
def SensorLoop.record (c : Setting) (s : SensorLoop σ) (now_epoch : Int64) : Record :=
  s.vars.record c now_epoch

/-- `avg_size` with the record of a full batch. -/
def SensorLoop.nextSize (c : Setting) (s : SensorLoop σ) (now_epoch : Int64) : ℚ :=
  nextAvgSize c.arith s.avg_size (cString ((s.record c now_epoch).json c)).length

/-- The variables after a batch, with what the retention has left. -/
def SensorLoop.sent (c : Setting) (s : SensorLoop σ) (now_epoch : Int64) (approx_count : ℕ)
    (shim : Shim σ) : SensorLoop σ :=
  { s with
    first_send := false
    last_fecha_str := s.vars.nextFecha (s.record c now_epoch).tm.fecha
    avg_size := s.nextSize c now_epoch
    approx_count := approx_count
    shim := shim
    sample_count := 0
    sums := .zero
    sum_co2 := 0 }

/-- The loop is entered after a login and a deletion. -/
theorem start_eq_looping {buf : Bytes} {data : SensorData} {now_us : Int} {shim : Shim σ}
    (h : sensor_task_start W P buf data now_us shim = some (.looping s)) :
    ∃ shim₁ r shim₂, firebase_init W P buf shim = some (0, shim₁) ∧
      firebase_delete W historial_mediciones shim₁ = some (r, shim₂) ∧
      s = .enter data now_us shim₂ := by
  simp only [sensor_task_start, Option.bind_eq_bind, Option.bind_eq_some_iff] at h
  obtain ⟨⟨ret, shim₁⟩, hinit, h⟩ := h
  dsimp only at h
  split at h
  · exact absurd h (by simp)
  · rename_i hzero
    obtain rfl := not_not.mp hzero
    simp only [Option.bind_eq_some_iff, Option.some.injEq, TaskState.looping.injEq] at h
    obtain ⟨⟨r, shim₂⟩, hdelete, rfl⟩ := h
    exact ⟨shim₁, r, shim₂, hinit, hdelete, rfl⟩

/-- A run is entered and made. -/
theorem sensor_task_eq_looping {buf : Bytes} {data : SensorData} {start_us : Int} {shim : Shim σ}
    {clocks : List Clock}
    (h : sensor_task W P B c buf data start_us shim clocks = some (.looping s)) :
    ∃ s₀, sensor_task_start W P buf data start_us shim = some (.looping s₀) ∧
      s₀.run W B c clocks = some s := by
  simp only [sensor_task, Option.bind_eq_bind, Option.bind_eq_some_iff] at h
  obtain ⟨state, hstart, h⟩ := h
  cases state with
  | deleted shim => simp at h
  | looping s₀ =>
      simp only [Option.map_eq_some_iff, TaskState.looping.injEq, exists_eq_right] at h
      exact ⟨s₀, hstart, h⟩

/-- The task is in its loop, in a state of this kind. -/
def TaskState.loops {σ : Type} (p : SensorLoop σ → Bool) : TaskState σ → Bool
  | .looping s => p s
  | .deleted _ => false

theorem exists_looping {state : Option (TaskState σ)} {p : SensorLoop σ → Bool}
    (h : state.any (TaskState.loops p) = true) : ∃ s, state = some (.looping s) ∧ p s = true := by
  match state with
  | some (.looping s) => exact ⟨s, rfl, h⟩
  | some (.deleted shim) => exact absurd h (by simp [TaskState.loops])
  | none => exact absurd h (by simp)

theorem send_eq_some {now_epoch : Int64} (h : s.send W c now_epoch = some s') :
    ∃ r mid approx_count shim,
      firebase_putData W (.of (path_put (s.record c now_epoch).tm.clave))
        (.of ((s.record c now_epoch).json c)) s.shim = some (r, mid) ∧
      retain W c (s.nextSize c now_epoch) ((s.approx_count + 1) % 2 ^ 32) mid
        = some (approx_count, shim) ∧
      s' = s.sent c now_epoch approx_count shim := by
  simp only [SensorLoop.send, Option.bind_eq_bind, Option.bind_eq_some_iff, Option.some.injEq] at h
  obtain ⟨⟨r, mid⟩, hput, ⟨approx_count, shim⟩, hretain, rfl⟩ := h
  exact ⟨r, mid, approx_count, shim, hput, hretain, rfl⟩

/-- The retention trims once or not at all. -/
theorem retain_eq_some {avg_size : ℚ} {approx_count approx_count' : ℕ} {shim shim' : Shim σ}
    (h : retain W c avg_size approx_count shim = some (approx_count', shim')) :
    (approx_count ≤ (maxItems c.arith avg_size + 50) % 2 ^ 32 ∧ approx_count' = approx_count ∧
        shim' = shim) ∨
      ∃ deleted, (maxItems c.arith avg_size + 50) % 2 ^ 32 < approx_count ∧
        firebase_trim_oldest_batch W historial_mediciones 50 shim = some (deleted, shim') ∧
        approx_count' = approxAfter approx_count deleted := by
  rw [retain] at h
  dsimp only at h
  split at h
  · simp only [Option.bind_eq_bind, Option.bind_eq_some_iff, Option.some.injEq, Prod.mk.injEq] at h
    obtain ⟨⟨deleted, shim''⟩, htrim, rfl, rfl⟩ := h
    exact Or.inr ⟨deleted, by assumption, htrim, rfl⟩
  · obtain ⟨rfl, rfl⟩ := Prod.mk.inj (Option.some.inj h)
    exact Or.inl ⟨by omega, rfl, rfl⟩

/-- The token is refreshed or not. -/
theorem refresh_eq_some {now_us : Int} (h : s.refresh W now_us = some s') :
    (now_us < s.next_refresh_us ∧ s' = s) ∨
      ∃ r shim, s.next_refresh_us ≤ now_us ∧ firebase_refresh_token W s.shim = some (r, shim) ∧
        s' = { s with
          shim := shim
          next_refresh_us := now_us + REFRESH_US
          refreshes := s.refreshes ++ [now_us] } := by
  rw [SensorLoop.refresh] at h
  split at h
  · simp only [Option.bind_eq_bind, Option.bind_eq_some_iff, Option.some.injEq] at h
    obtain ⟨⟨r, shim⟩, hcall, rfl⟩ := h
    exact Or.inr ⟨r, shim, by assumption, hcall, rfl⟩
  · obtain rfl := Option.some.inj h
    exact Or.inl ⟨by omega, rfl⟩

/-- **What a round can do**: it reads the sensors, sends a batch if it is full, and refreshes
the token if it is due. -/
theorem round_eq_some {clock : Clock} (h : s.round W B c clock = some s') :
    ∃ mid, mid.refresh W clock.now_us = some s' ∧
      (((s.collect B c).sample_count < SAMPLES_PER_BATCH ∧ mid = s.collect B c) ∨
        (SAMPLES_PER_BATCH ≤ (s.collect B c).sample_count ∧
          (s.collect B c).send W c clock.now_epoch = some mid)) := by
  rw [SensorLoop.round] at h
  dsimp only at h
  split at h
  · simp only [Option.bind_eq_bind, Option.bind_eq_some_iff] at h
    obtain ⟨mid, hsend, hrefresh⟩ := h
    exact ⟨mid, hrefresh, Or.inr ⟨by assumption, hsend⟩⟩
  · exact ⟨_, h, Or.inl ⟨by omega, rfl⟩⟩

/-- Reading the sensors leaves the rest alone. -/
theorem collect_frame (s : SensorLoop σ) : (s.collect B c).shim = s.shim ∧
    (s.collect B c).next_refresh_us = s.next_refresh_us ∧
    (s.collect B c).refreshes = s.refreshes := by
  rw [SensorLoop.collect]
  dsimp only
  split <;> exact ⟨rfl, rfl, rfl⟩

/-- The timer before the end of a round. -/
theorem timer_before_refresh {clock : Clock} (h : s.round W B c clock = some s') :
    ∃ mid : SensorLoop σ, mid.refresh W clock.now_us = some s' ∧
      mid.next_refresh_us = s.next_refresh_us ∧ mid.refreshes = s.refreshes := by
  obtain ⟨mid, hrefresh, hmid⟩ := round_eq_some h
  obtain ⟨-, hnext, hlist⟩ := collect_frame (B := B) (c := c) s
  refine ⟨mid, hrefresh, ?_⟩
  rcases hmid with ⟨-, rfl⟩ | ⟨-, hsend⟩
  · exact ⟨hnext, hlist⟩
  · obtain ⟨r, shim₁, approx_count, shim₂, -, -, rfl⟩ := send_eq_some hsend
    exact ⟨hnext, hlist⟩

end Parts

/-! ### The refreshes of the token -/

section Refreshes

variable {σ : Type} {W : World σ} {B : I2c} {c : Setting}

/-- The times of the refreshes, behind the time at which the first one was scheduled: each is
at least 50 minutes after the one before it, and the next one is due 50 minutes after the
last. -/
structure OnSchedule (start_us : Int) (s : SensorLoop σ) : Prop where
  apart : (start_us :: s.refreshes).IsChain fun t t' => t + REFRESH_US ≤ t'
  due : ∃ last, (start_us :: s.refreshes).getLast? = some last ∧
    s.next_refresh_us = last + REFRESH_US

/-- One round keeps the spacing, and at its end the next refresh is not due. -/
theorem OnSchedule.round {start_us : Int} {s s' : SensorLoop σ} (hs : OnSchedule start_us s)
    {clock : Clock} (h : s.round W B c clock = some s') :
    OnSchedule start_us s' ∧ clock.now_us < s'.next_refresh_us ∧
      (s'.refreshes = s.refreshes ∨ s'.refreshes = s.refreshes ++ [clock.now_us]) := by
  obtain ⟨mid, hrefresh, hnext, hlist⟩ := timer_before_refresh h
  obtain ⟨last, hlast, hdue⟩ := hs.due
  rcases refresh_eq_some hrefresh with ⟨hearly, rfl⟩ | ⟨r, shim, hlate, -, rfl⟩
  · refine ⟨⟨by rw [hlist]; exact hs.apart, last, by rw [hlist]; exact hlast, ?_⟩, hearly,
      Or.inl hlist⟩
    rw [hnext, hdue]
  · refine ⟨⟨?_, clock.now_us, ?_, rfl⟩, ?_, Or.inr (by rw [hlist])⟩
    · rw [hlist, ← List.cons_append, List.isChain_append]
      refine ⟨hs.apart, .singleton _, ?_⟩
      rintro t ht t' ht'
      obtain rfl : last = t := Option.some.inj (hlast.symm.trans ht)
      obtain rfl : clock.now_us = t' := Option.some.inj ht'
      omega
    · rw [hlist, ← List.cons_append, List.getLast?_concat]
    · have hus : REFRESH_US = 3000000000 := rfl
      dsimp only
      omega

/-- What refreshes that are 50 minutes apart amount to. -/
theorem length_mul_le_of_apart {start_us last : Int} {times : List Int}
    (h : (start_us :: times).IsChain fun t t' => t + REFRESH_US ≤ t')
    (hlast : (start_us :: times).getLast? = some last) :
    times.length * REFRESH_US ≤ last - start_us := by
  induction times generalizing start_us with
  | nil =>
      obtain rfl : start_us = last := Option.some.inj hlast
      simp
  | cons t times ih =>
      rw [List.isChain_cons_cons] at h
      have hrest := ih h.2 (by rwa [List.getLast?_cons_cons] at hlast)
      push_cast [List.length_cons]
      linarith [h.1]

/-- **The refreshes of a run.** Whatever the clock shows: two refreshes of the token are at
least 50 minutes apart, as is the first one from the start, so `n` of them take at least `n`
times 50 minutes; each is made at the end of a round; and at the end of a round the last one is
less than 50 minutes old. -/
theorem refreshes_spaced (W : World σ) (P : Privado) (B : I2c) (c : Setting) {buf : Bytes}
    {data : SensorData} {start_us : Int} {shim : Shim σ} {s : SensorLoop σ} {clocks : List Clock}
    (h : sensor_task W P B c buf data start_us shim clocks = some (.looping s)) :
    ((start_us :: s.refreshes).IsChain fun t t' => t + REFRESH_US ≤ t') ∧
      s.refreshes.Sublist (clocks.map Clock.now_us) ∧
      ∃ last, (start_us :: s.refreshes).getLast? = some last ∧
        s.refreshes.length * REFRESH_US ≤ last - start_us ∧
        ∀ clock, clocks.getLast? = some clock → clock.now_us < last + REFRESH_US := by
  obtain ⟨s₀, hstart, hrun⟩ := sensor_task_eq_looping h
  have hentered : OnSchedule start_us s₀ ∧ s₀.refreshes = [] := by
    obtain ⟨shim₁, r, shim₂, -, -, rfl⟩ := start_eq_looping hstart
    exact ⟨⟨.singleton _, start_us, rfl, rfl⟩, rfl⟩
  have hspaced : OnSchedule start_us s ∧ s.refreshes.Sublist (clocks.map Clock.now_us) ∧
      ∀ clock, clocks.getLast? = some clock → clock.now_us < s.next_refresh_us := by
    clear h
    induction clocks using List.reverseRecOn generalizing s with
    | nil =>
        obtain rfl : s₀ = s := Option.some.inj hrun
        exact ⟨hentered.1, by simp [hentered.2], by simp⟩
    | append_singleton clocks clock ih =>
        rw [SensorLoop.run_snoc, Option.bind_eq_some_iff] at hrun
        obtain ⟨mid, hmid, hround⟩ := hrun
        obtain ⟨hspaced, hsub, -⟩ := ih hmid
        obtain ⟨hspaced', hdue, hmore⟩ := hspaced.round hround
        refine ⟨hspaced', ?_, fun clock' hlast => ?_⟩
        · rw [List.map_append]
          rcases hmore with hmore | hmore <;> rw [hmore]
          · exact hsub.trans (List.sublist_append_left _ _)
          · exact hsub.append (List.Sublist.refl _)
        · rw [List.getLast?_concat, Option.some.injEq] at hlast
          exact hlast ▸ hdue
  obtain ⟨⟨hapart, last, hlast, hdue⟩, hsub, hend⟩ := hspaced
  refine ⟨hapart, hsub, last, hlast, length_mul_le_of_apart hapart hlast, fun clock hclock => ?_⟩
  rw [← hdue]
  exact hend clock hclock

end Refreshes

/-- A run without sensors on a network that answers every request with tokens: the second round
is more than 50 minutes after the start. -/
def hourRun : Option (TaskState ℕ) :=
  sensor_task (Answers.always ⟨ESP_OK, 200, tokensBody⟩).world somePrivado
    ⟨fun _ _ _ => ESP_FAIL, fun _ _ => (ESP_FAIL, fun _ => 0)⟩
    ⟨.exact, .of (ascii "city"), .of (ascii "id"), ascii "00:00:00"⟩ (zeroed HTTP_RECV_BUFFER_SIZE)
    ⟨0, 0, 0, 0, 0, 0, 0, 0, 0, 0, 0, 0, 0⟩ 0 (Shim.start 0)
    [⟨0, 60000000⟩, ⟨3540, 3600000000⟩, ⟨3600, 3660000000⟩]

theorem hourRun_looping : ∃ s, hourRun = some (.looping s) ∧
    decide (s.refreshes = [3600000000]) = true :=
  exists_looping (by decide +kernel)

theorem refreshes_spaced_hour : ∃ s, hourRun = some (.looping s) ∧ s.refreshes = [3600000000] ∧
    ([0, 3600000000] : List Int).IsChain (fun t t' => t + REFRESH_US ≤ t') := by
  obtain ⟨s, hrun, hone⟩ := hourRun_looping
  have hrefreshes := of_decide_eq_true hone
  have hspaced := (refreshes_spaced _ _ _ _ hrun).1
  rw [hrefreshes] at hspaced
  exact ⟨s, hrun, hrefreshes, hspaced⟩

/-! ### The attempts of a run -/

section Attempts

variable {σ : Type} {W : World σ} {P : Privado} {B : I2c} {c : Setting}

/-- The attempts that have been made. -/
def Shim.attempts (s : Shim σ) : ℕ :=
  match s.g_app with
  | some app => app.sent.length
  | none => 0

/-- A function of the interface makes as many attempts as its operation. -/
theorem onRtdb_attempts {f : Rtdb σ → Option Int × Rtdb σ} {n : ℕ} {s s' : Shim σ} {r : Int}
    (hf : ∀ {d r d'}, f d = (r, d') → Attempts n d.app d'.app)
    (h : s.onRtdb f = some (r, s')) : s'.attempts ≤ s.attempts + 5 * n := by
  cases hrtdb : s.g_rtdb with
  | none =>
      simp only [Shim.onRtdb, hrtdb, Option.some.injEq, Prod.mk.injEq] at h
      obtain ⟨-, rfl⟩ := h
      omega
  | some base =>
      cases happ : s.g_app with
      | none =>
          simp only [Shim.onRtdb, hrtdb, happ, Option.some.injEq, Prod.mk.injEq] at h
          obtain ⟨-, rfl⟩ := h
          omega
      | some app =>
          obtain ⟨d', hcall, -, happ'⟩ := onRtdb_eq_some hrtdb happ h
          obtain ⟨es, hes, hlen⟩ := hf hcall
          simp only [Shim.attempts, happ, happ', hes, List.length_append]
          omega

theorem firebase_putData_attempts {s s' : Shim σ} {path json : CStr} {r : Int}
    (h : firebase_putData W path json s = some (r, s')) : s'.attempts ≤ s.attempts + 25 := by
  refine onRtdb_attempts (n := 5) (fun {d r d'} hret => ?_) h
  obtain ⟨-, rfl⟩ := Prod.mk.inj hret
  exact (graded_attempts W).sendData rfl

theorem firebase_delete_attempts {s s' : Shim σ} {path : CStr} {r : Int}
    (h : firebase_delete W path s = some (r, s')) : s'.attempts ≤ s.attempts + 25 := by
  refine onRtdb_attempts (n := 5) (fun {d r d'} hret => ?_) h
  obtain ⟨-, rfl⟩ := Prod.mk.inj hret
  exact (graded_attempts W).deleteData rfl

theorem firebase_trim_oldest_batch_attempts {s s' : Shim σ} {root_path : CStr} {batch_size r : Int}
    (h : firebase_trim_oldest_batch W root_path batch_size s = some (r, s')) :
    s'.attempts ≤ s.attempts + 10 :=
  onRtdb_attempts (n := 2) (fun hret => (graded_attempts W).trimOldestBatch hret) h

theorem firebase_refresh_token_attempts {s s' : Shim σ} {r : Int}
    (h : firebase_refresh_token W s = some (r, s')) : s'.attempts ≤ s.attempts + 15 := by
  cases happ : s.g_app with
  | none =>
      simp only [firebase_refresh_token, happ, Option.some.injEq, Prod.mk.injEq] at h
      obtain ⟨-, rfl⟩ := h
      omega
  | some app =>
      obtain ⟨err, app', hcall, -, -, happ'⟩ := firebase_refresh_token_eq_some happ h
      obtain ⟨es, hes, hlen⟩ := (graded_attempts W).forceRefreshAuth hcall
      simp only [Shim.attempts, happ, happ', hes, List.length_append]
      omega

theorem firebase_init_attempts {s s' : Shim σ} {buf : Bytes} {r : Int}
    (h : firebase_init W P buf s = some (r, s')) : s'.attempts ≤ s.attempts + 30 := by
  rw [firebase_init] at h
  split at h
  · simp only [Option.some.injEq, Prod.mk.injEq] at h
    obtain ⟨-, rfl⟩ := h
    simp [Shim.attempts]
  · simp only [Option.bind_eq_bind, Option.bind_eq_some_iff] at h
    obtain ⟨⟨err, app⟩, hlogin, h⟩ := h
    obtain ⟨es, hes, hlen⟩ := (graded_attempts W).firstLogin hlogin
    have hnew : app.sent = es := by
      rw [hes]
      rfl
    have happ : s'.g_app = some app := by
      dsimp only at h
      split at h <;> obtain ⟨-, rfl⟩ := Prod.mk.inj (Option.some.inj h) <;> rfl
    simp only [Shim.attempts, happ, hnew]
    omega

theorem round_attempts {s s' : SensorLoop σ} {clock : Clock}
    (h : s.round W B c clock = some s') : s'.shim.attempts ≤ s.shim.attempts + 50 := by
  obtain ⟨mid, hrefresh, hmid⟩ := round_eq_some h
  obtain ⟨hshim, -, -⟩ := collect_frame (B := B) (c := c) s
  have hsent : mid.shim.attempts ≤ s.shim.attempts + 35 := by
    rcases hmid with ⟨-, rfl⟩ | ⟨-, hsend⟩
    · rw [hshim]
      omega
    · obtain ⟨r, shim₁, approx_count, shim₂, hput, hretain, rfl⟩ := send_eq_some hsend
      have hput' := firebase_putData_attempts hput
      rw [hshim] at hput'
      rcases retain_eq_some hretain with ⟨-, -, rfl⟩ | ⟨deleted, -, htrim, -⟩
      · change shim₂.attempts ≤ _
        omega
      · have htrim' := firebase_trim_oldest_batch_attempts htrim
        change shim₂.attempts ≤ _
        omega
  rcases refresh_eq_some hrefresh with ⟨-, rfl⟩ | ⟨r, shim, -, hcall, rfl⟩
  · omega
  · have hcall' := firebase_refresh_token_attempts hcall
    dsimp only
    omega

/-- The attempts that have been made when the task is in this state. -/
def TaskState.attempts : TaskState σ → ℕ
  | .deleted shim => shim.attempts
  | .looping s => s.shim.attempts

/-- The attempts up to the loop, or up to the end of a task that does not enter it. -/
theorem start_attempts {buf : Bytes} {data : SensorData} {start_us : Int} {w : σ}
    {entered : TaskState σ}
    (h : sensor_task_start W P buf data start_us (Shim.start w) = some entered) :
    entered.attempts ≤ 55 := by
  have hnone : (Shim.start w).attempts = 0 := rfl
  simp only [sensor_task_start, Option.bind_eq_bind, Option.bind_eq_some_iff] at h
  obtain ⟨⟨ret, shim₁⟩, hinit, h⟩ := h
  have hinit' := firebase_init_attempts hinit
  dsimp only at h
  split at h
  · obtain rfl := Option.some.inj h
    change shim₁.attempts ≤ 55
    omega
  · simp only [Option.bind_eq_some_iff, Option.some.injEq] at h
    obtain ⟨⟨r, shim₂⟩, hdelete, rfl⟩ := h
    have hdelete' := firebase_delete_attempts hdelete
    change shim₂.attempts ≤ 55
    omega

/-- The attempts of some rounds. -/
theorem run_attempts {s s' : SensorLoop σ} {clocks : List Clock}
    (h : s.run W B c clocks = some s') :
    s'.shim.attempts ≤ s.shim.attempts + 50 * clocks.length := by
  induction clocks using List.reverseRecOn generalizing s' with
  | nil =>
      obtain rfl : s = s' := Option.some.inj h
      omega
  | append_singleton clocks clock ih =>
      rw [SensorLoop.run_snoc, Option.bind_eq_some_iff] at h
      obtain ⟨mid, hmid, hround⟩ := h
      have hmid' := ih hmid
      have hround' := round_attempts hround
      rw [List.length_append, List.length_singleton]
      omega

/-- **The attempts of a run.** Whatever the network does: up to its loop, or up to its end if the
login fails, the task makes at most 55 attempts at a request; it makes at most 50 in every round
of the run, and so at most `55 + 50 * n` in `n` rounds. -/
theorem sensor_task_attempts (W : World σ) (P : Privado) (B : I2c) (c : Setting) {buf : Bytes}
    {data : SensorData} {start_us : Int} {w : σ} {state : TaskState σ} {clocks : List Clock}
    (h : sensor_task W P B c buf data start_us (Shim.start w) clocks = some state) :
    ∃ entered, sensor_task_start W P buf data start_us (Shim.start w) = some entered ∧
      entered.attempts ≤ 55 ∧
      (∀ s₀ before clock after s s', entered = .looping s₀ → clocks = before ++ clock :: after →
        s₀.run W B c before = some s → s.round W B c clock = some s' →
          s'.shim.attempts ≤ s.shim.attempts + 50) ∧
      state.attempts ≤ 55 + 50 * clocks.length := by
  simp only [sensor_task, Option.bind_eq_bind, Option.bind_eq_some_iff] at h
  obtain ⟨entered, hstart, h⟩ := h
  have hentered := start_attempts hstart
  refine ⟨entered, hstart, hentered, fun _ _ _ _ _ _ _ _ _ hround => round_attempts hround, ?_⟩
  cases entered with
  | deleted shim =>
      obtain rfl := Option.some.inj h
      exact hentered.trans (Nat.le_add_right _ _)
  | looping s₀ =>
      obtain ⟨s, hrun, rfl⟩ := Option.map_eq_some_iff.mp h
      have hrun' := run_attempts hrun
      change s₀.shim.attempts ≤ 55 at hentered
      change s.shim.attempts ≤ _
      omega

theorem sensor_task_attempts_hour : ∃ s, hourRun = some (.looping s) ∧
    s.shim.attempts ≤ 55 + 50 * 3 := by
  obtain ⟨s, hrun, -⟩ := hourRun_looping
  obtain ⟨entered, -, -, -, hall⟩ := sensor_task_attempts _ _ _ _ hrun
  exact ⟨s, hrun, hall⟩

end Attempts

end PppAmb
