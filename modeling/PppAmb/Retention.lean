import PppAmb.Run
import PppAmb.Sampling

/-!
# Retention

`sensor_task` never reads back how many records the database holds. It keeps the estimate
`approx_count`, which goes up with every batch and down by what a trim reports, and trims
when the estimate is above `high_water`. This module relates the estimate to the records
that are stored, over every run.

## Main results

* `estimate_bounds`: the estimate never falls below what this run has stored, and as long as
  every trim reports a positive count it stays within the largest `high_water` so far.
* `stored_at_trim`: when the records are trimmed, those stored and those missed exceed
  `max_items + 50`.
* `trim_of_empty_database`: if every `PUT` fails, the database is trimmed while it is empty.
-/

namespace PppAmb

variable {c : Setting} {s : Task}

/-! ### One batch -/

/-- A `PUT` leaves the number of records as it is or adds one; `added` tells which. -/
theorem stored_eq (s : Task) (t : Tick) :
    (s.batch c t).stored = s.db.size + if (s.batch c t).added then 1 else 0 := by
  have hsize : (s.dbAfterPut c t).size = s.db.size ∨
      (s.dbAfterPut c t).size = s.db.size + 1 := by
    rw [Task.dbAfterPut]
    split
    · exact size_put _ _ _
    · exact Or.inl rfl
  simp only [Task.batch]
  rcases hsize with h | h <;> simp [h]

/-- The records that are left after a batch. -/
def Batch.left (b : Batch) : ℕ :=
  match b.trim with
  | some trim => b.stored - trim.removed
  | none => b.stored

/-- The estimate after a batch, from the estimate with this batch counted. -/
def Batch.estimate (b : Batch) (approx_count : ℕ) : ℕ :=
  match b.trim with
  | some trim => approxAfter approx_count trim.deleted
  | none => approx_count

theorem size_send (s : Task) (t : Tick) : (s.send c t).db.size = (s.batch c t).left := by
  cases htrim : (s.batch c t).trim with
  | none =>
      simp only [Task.send, Batch.left, htrim]
      rfl
  | some trim =>
      simp only [Task.send, Batch.left, htrim, size_dropFirst]
      rfl

theorem approx_send (s : Task) (t : Tick) :
    (s.send c t).approx_count = (s.batch c t).estimate ((s.approx_count + 1) % 2 ^ 32) := rfl

theorem history_send (s : Task) (t : Tick) :
    (s.send c t).history = s.history ++ [s.batch c t] := rfl

/-- A batch is trimmed exactly when the estimate is above its `high_water`. -/
theorem trim_batch (s : Task) (t : Tick) :
    (s.batch c t).trim = if (s.approx_count + 1) % 2 ^ 32 > (s.batch c t).high_water
      then some t.trim else none := rfl

/-- **The run rule of the retention.** A property of the estimate, the number of stored
records and the history holds after every run if it holds at the start and every batch
keeps it. -/
theorem retention_rule (c : Setting) (db : Store Bytes Bytes) (now_us : Int)
    {P : ℕ → ℕ → List Batch → Prop} (hstart : P 0 db.size [])
    (hbatch : ∀ (s : Task) (t : Tick), P s.approx_count s.db.size s.history →
      P ((s.batch c t).estimate ((s.approx_count + 1) % 2 ^ 32)) (s.batch c t).left
        (s.history ++ [s.batch c t])) (ticks : List Tick) :
    P ((Task.start db now_us).run c ticks).approx_count
      ((Task.start db now_us).run c ticks).db.size
      ((Task.start db now_us).run c ticks).history := by
  induction ticks using List.reverseRecOn with
  | nil => exact hstart
  | append_singleton ticks t ih =>
      rw [Task.run_snoc]
      rcases ((Task.start db now_us).run c ticks).step_cases c t with hquiet | ⟨s₁, hquiet, hsend⟩
      · rwa [hquiet.approx_count, hquiet.db, hquiet.history]
      · rw [hsend.approx_count, hsend.db, hsend.history, size_send, approx_send, history_send]
        apply hbatch
        rwa [hquiet.approx_count, hquiet.db, hquiet.history]

/-! ### The estimate -/

/-- A trim that reports a positive count has removed exactly this many records. -/
def HonestTrims (history : List Batch) : Prop :=
  ∀ b ∈ history, ∀ trim, b.trim = some trim → 0 < trim.deleted →
    (trim.removed : Int) = trim.deleted ∧ trim.removed ≤ b.stored

/-- Every trim has reported a positive count. -/
def PositiveTrims (history : List Batch) : Prop :=
  ∀ b ∈ history, ∀ trim, b.trim = some trim → 0 < trim.deleted

/-- The largest `high_water` so far. -/
def topHighWater (history : List Batch) : ℕ :=
  (history.map Batch.high_water).foldl max 0

theorem topHighWater_snoc (history : List Batch) (b : Batch) :
    topHighWater (history ++ [b]) = max (topHighWater history) b.high_water := by
  simp [topHighWater]

/-- The estimate, the number of stored records and the history fit together. -/
structure Estimated (initial approx_count stored : ℕ) (history : List Batch) : Prop where
  attempts : approx_count ≤ history.length
  enough : HonestTrims history → stored ≤ approx_count + initial
  bounded : PositiveTrims history → approx_count ≤ topHighWater history

/-- One batch keeps it, as long as the counter does not wrap around. -/
theorem Estimated.batch {initial : ℕ} (h : Estimated initial s.approx_count s.db.size s.history)
    (hlen : s.history.length + 1 < 2 ^ 32) (t : Tick) :
    Estimated initial ((s.batch c t).estimate ((s.approx_count + 1) % 2 ^ 32)) (s.batch c t).left
      (s.history ++ [s.batch c t]) := by
  obtain ⟨hattempts, henough, hbounded⟩ := h
  have hstored := stored_eq (c := c) s t
  have htrim := trim_batch (c := c) s t
  have hadded : (if (s.batch c t).added then 1 else 0) ≤ 1 := by split <;> omega
  have hwrap : (s.approx_count + 1) % 2 ^ 32 = s.approx_count + 1 := Nat.mod_eq_of_lt (by omega)
  rw [hwrap] at htrim ⊢
  generalize s.batch c t = b at hstored htrim hadded ⊢
  have hhonest : HonestTrims (s.history ++ [b]) → HonestTrims s.history := fun h x hx =>
    h x (List.mem_append_left _ hx)
  have hpositive : PositiveTrims (s.history ++ [b]) → PositiveTrims s.history := fun h x hx =>
    h x (List.mem_append_left _ hx)
  have hmem : b ∈ s.history ++ [b] := List.mem_append_right _ (List.mem_singleton_self b)
  by_cases habove : s.approx_count + 1 > b.high_water
  · rw [if_pos habove] at htrim
    refine ⟨?_, ?_, ?_⟩
    · simp only [Batch.estimate, htrim, approxAfter, List.length_append, List.length_singleton]
      split <;> [split; skip] <;> omega
    · intro hall
      have hold := henough (hhonest hall)
      have hnew := hall b hmem t.trim htrim
      simp only [Batch.estimate, Batch.left, htrim, approxAfter]
      split <;> [split; skip] <;> omega
    · intro hall
      have hold := hbounded (hpositive hall)
      have hnew := hall b hmem t.trim htrim
      rw [topHighWater_snoc]
      simp only [Batch.estimate, htrim, approxAfter]
      split <;> [split; skip] <;> omega
  · rw [if_neg habove] at htrim
    refine ⟨?_, ?_, ?_⟩
    · simp only [Batch.estimate, htrim, List.length_append, List.length_singleton]
      omega
    · intro hall
      have hold := henough (hhonest hall)
      simp only [Batch.estimate, Batch.left, htrim]
      omega
    · intro hall
      rw [topHighWater_snoc]
      simp only [Batch.estimate, htrim]
      omega

/-- **The estimate.** At the end of every round of every run of fewer than `2 ^ 32` batches,
if every trim that reported a positive count removed exactly this many records: the number
of stored records is at most the estimate and the records that were there at the start;
and if every trim so far has reported a positive count, the estimate is at most the
largest `high_water` so far. -/
theorem estimate_bounds (c : Setting) (db : Store Bytes Bytes) (now_us : Int) (ticks : List Tick)
    (hlen : ((Task.start db now_us).run c ticks).history.length < 2 ^ 32)
    (hhonest : HonestTrims ((Task.start db now_us).run c ticks).history) :
    ((Task.start db now_us).run c ticks).db.size
        ≤ ((Task.start db now_us).run c ticks).approx_count + db.size ∧
      (PositiveTrims ((Task.start db now_us).run c ticks).history →
        ((Task.start db now_us).run c ticks).approx_count
          ≤ topHighWater ((Task.start db now_us).run c ticks).history) := by
  have hrun : _ → Estimated db.size _ _ _ := retention_rule c db now_us
    (P := fun approx_count stored history => history.length < 2 ^ 32 →
      Estimated db.size approx_count stored history)
    (fun _ => ⟨le_rfl, fun _ => by omega, fun _ => Nat.zero_le _⟩)
    (fun s t ih hlen => by
      rw [List.length_append, List.length_singleton] at hlen
      exact (ih (by omega)).batch hlen t) ticks
  have h := hrun hlen
  exact ⟨h.enough hhonest, h.bounded⟩

/-- A run of one batch, whose record is stored. -/
def oneBatch : List Tick :=
  List.replicate 5 ⟨some ⟨400, 20, 50, 1, 2, 3, 4, 100, 1, 20, 50, 20, 50⟩, 1758000000, [.applied],
    ⟨0, 0⟩, 0⟩

/-- A device, with exact arithmetic. -/
def someDevice : Setting :=
  ⟨.exact, .of (ascii "city"), .of (ascii "id"), ascii "00:00:00"⟩

/-- A database without records. -/
def emptyDatabase : Store Bytes Bytes :=
  ⟨[], List.Pairwise.nil⟩

theorem trims_oneBatch :
    ((Task.start emptyDatabase 0).run someDevice oneBatch).history.map Batch.trim = [none] := by
  decide +kernel

theorem estimate_bounds_oneBatch :
    ((Task.start emptyDatabase 0).run someDevice oneBatch).db.size
      ≤ ((Task.start emptyDatabase 0).run someDevice oneBatch).approx_count + emptyDatabase.size := by
  have hlen := congrArg List.length trims_oneBatch
  rw [List.length_map] at hlen
  refine (estimate_bounds someDevice emptyDatabase 0 oneBatch (by rw [hlen]; decide) ?_).1
  intro b hb trim htrim
  have hmem := List.mem_map_of_mem (f := Batch.trim) hb
  rw [trims_oneBatch, List.mem_singleton, htrim] at hmem
  exact absurd hmem (by simp)

/-! ### What is stored when the records are trimmed -/

/-- A batch whose `PUT` has not added a record: it was not applied, or its key was there. -/
def Batch.missed (b : Batch) : ℕ :=
  if b.added then 0 else 1

/-- Every batch stores one more record or misses it. -/
theorem size_lt_stored_missed (s : Task) (t : Tick) :
    s.db.size < (s.batch c t).stored + (s.batch c t).missed := by
  rw [stored_eq, Batch.missed]
  split <;> omega

/-- The records a trim has removed beyond the count it has reported. -/
def Batch.unreported (b : Batch) : ℕ :=
  match b.trim with
  | some trim => min trim.removed b.stored - trim.deleted.toNat
  | none => 0

/-- The records the estimate counts although they are not stored. -/
def overcount (history : List Batch) : ℕ :=
  (history.map fun b => b.missed + b.unreported).sum

theorem overcount_snoc (history : List Batch) (b : Batch) :
    overcount (history ++ [b]) = overcount history + (b.missed + b.unreported) := by
  simp [overcount]

/-- The estimate exceeds what is stored by no more than the overcount. -/
theorem estimate_le_overcount (c : Setting) (db : Store Bytes Bytes) (now_us : Int)
    (ticks : List Tick) :
    ((Task.start db now_us).run c ticks).approx_count
      ≤ ((Task.start db now_us).run c ticks).db.size
        + overcount ((Task.start db now_us).run c ticks).history := by
  refine retention_rule c db now_us
    (P := fun approx_count stored history => approx_count ≤ stored + overcount history)
    (Nat.zero_le _) (fun s t ih => ?_) ticks
  have hmissed := size_lt_stored_missed (c := c) s t
  have hwrap : (s.approx_count + 1) % 2 ^ 32 ≤ s.approx_count + 1 := Nat.mod_le _ _
  generalize (s.approx_count + 1) % 2 ^ 32 = approx_count at hwrap ⊢
  generalize s.batch c t = b at hmissed ⊢
  rw [overcount_snoc]
  cases htrim : b.trim with
  | none =>
      simp only [Batch.estimate, Batch.left, Batch.unreported, htrim]
      omega
  | some trim =>
      simp only [Batch.estimate, Batch.left, Batch.unreported, htrim, approxAfter]
      split <;> [split; skip] <;> omega

/-- With exact arithmetic `max_items` is at most the number of bytes. -/
theorem maxItems_le (avg_size : ℚ) : maxItems .exact avg_size ≤ MAX_BYTES := by
  have hpos : (1 : ℚ) ≤ if avg_size > 1 then avg_size else 1 := by
    split
    · rename_i h
      exact h.le
    · exact le_rfl
  have hdiv := div_le_self (Nat.cast_nonneg (α := ℚ) MAX_BYTES) hpos
  have hfloor := Int.floor_le_floor hdiv
  rw [Int.floor_natCast] at hfloor
  rw [maxItems]
  calc _ ≤ ⌊(MAX_BYTES : ℚ) / if avg_size > 1 then avg_size else 1⌋.toNat := Nat.mod_le _ _
    _ ≤ MAX_BYTES := by omega

/-- With exact arithmetic the addition of 50 does not wrap around. -/
theorem high_water_exact (c : Setting) (s : Task) (t : Tick) :
    (s.batch c.exact t).high_water = (s.batch c.exact t).max_items + 50 := by
  have hle : (s.batch c.exact t).max_items ≤ MAX_BYTES := maxItems_le _
  have hmax : MAX_BYTES = 10485760 := rfl
  have hdef : (s.batch c.exact t).high_water = ((s.batch c.exact t).max_items + 50) % 2 ^ 32 := rfl
  rw [hdef, Nat.mod_eq_of_lt (by omega)]

/-- At every trim, the records that are stored and those that are missing exceed
`max_items + 50`. -/
def TrimsJustified (history : List Batch) : Prop :=
  ∀ before b after, history = before ++ b :: after → b.trim.isSome →
    b.max_items + 50 < b.stored + b.missed + overcount before

theorem trimsJustified_snoc {history : List Batch} {b : Batch} :
    TrimsJustified (history ++ [b]) ↔ TrimsJustified history ∧
      (b.trim.isSome → b.max_items + 50 < b.stored + b.missed + overcount history) :=
  forall_split_snoc (P := fun (before : List Batch) (b : Batch) =>
    b.trim.isSome → b.max_items + 50 < b.stored + b.missed + overcount before)

/-- **What is stored at a trim.** Over every run, whenever the oldest records are trimmed:
the records stored at that moment, the batches so far whose `PUT` has added no record and
the records that earlier trims have removed without reporting them are together more than
`max_items + 50`. So more than `max_items` records are stored, unless more than 50 are
missing. -/
theorem stored_at_trim (c : Setting) (db : Store Bytes Bytes) (now_us : Int) (ticks : List Tick) :
    TrimsJustified ((Task.start db now_us).run c.exact ticks).history := by
  induction ticks using List.reverseRecOn with
  | nil =>
      intro before b after heq
      exact absurd heq (by simp [Task.run, Task.start])
  | append_singleton ticks t ih =>
      have hestimate := estimate_le_overcount c.exact db now_us ticks
      rw [Task.run_snoc]
      generalize (Task.start db now_us).run c.exact ticks = s at ih hestimate ⊢
      rcases s.step_cases c.exact t with hquiet | ⟨s₁, hquiet, hsend⟩
      · rwa [hquiet.history]
      · rw [← hquiet.approx_count, ← hquiet.db, ← hquiet.history] at hestimate
        rw [hsend.history, history_send]
        refine trimsJustified_snoc.mpr ⟨by rwa [hquiet.history], fun htrim => ?_⟩
        have hmissed := size_lt_stored_missed (c := c.exact) s₁ t
        have hwater := high_water_exact c s₁ t
        have hwrap : (s₁.approx_count + 1) % 2 ^ 32 ≤ s₁.approx_count + 1 := Nat.mod_le _ _
        rw [trim_batch] at htrim
        by_cases habove : (s₁.approx_count + 1) % 2 ^ 32 > (s₁.batch c.exact t).high_water
        · omega
        · rw [if_neg habove] at htrim
          exact absurd htrim (by simp)

/-! ### A run in which no record is stored -/

/-- Without trims the estimate is the number of batches, and none of them was above its
`high_water`. -/
theorem estimate_of_no_trim (c : Setting) (db : Store Bytes Bytes) (now_us : Int)
    (ticks : List Tick) (hlen : ((Task.start db now_us).run c ticks).history.length < 2 ^ 32)
    (hnone : ∀ b ∈ ((Task.start db now_us).run c ticks).history, b.trim = none) :
    ∀ (k : ℕ) (b : Batch), ((Task.start db now_us).run c ticks).history[k]? = some b →
      k < b.high_water := by
  have hrun := retention_rule c db now_us
    (P := fun approx_count _ history => history.length < 2 ^ 32 →
      (∀ b ∈ history, b.trim = none) → approx_count = history.length ∧
        ∀ (k : ℕ) (b : Batch), history[k]? = some b → k < b.high_water)
    (fun _ _ => ⟨rfl, by simp⟩) (fun s t ih hlen hnone => ?_) ticks hlen hnone
  · exact hrun.2
  · rw [List.length_append, List.length_singleton] at hlen ⊢
    obtain ⟨happrox, hbelow⟩ := ih (by omega) fun b hb => hnone b (List.mem_append_left _ hb)
    have hlast := hnone _ (List.mem_append_right _ (List.mem_singleton_self _))
    have htrim := trim_batch (c := c) s t
    rw [Nat.mod_eq_of_lt (by omega)] at htrim ⊢
    generalize s.batch c t = b at hlast htrim ⊢
    by_cases habove : s.approx_count + 1 > b.high_water
    · rw [if_pos habove, hlast] at htrim
      exact absurd htrim (by simp)
    · refine ⟨by simp only [Batch.estimate, hlast]; omega, fun k x hk => ?_⟩
      by_cases hold : k < s.history.length
      · rw [List.getElem?_append_left hold] at hk
        exact hbelow k x hk
      · obtain ⟨hklt, hx⟩ := List.getElem?_eq_some_iff.mp hk
        rw [List.length_append, List.length_singleton] at hklt
        obtain rfl : k = s.history.length := by omega
        obtain rfl : b = x := by simpa using hx
        omega

/-- If no `PUT` is applied, no records are stored but those of the start. -/
theorem stored_of_no_put (c : Setting) (db : Store Bytes Bytes) (now_us : Int) (ticks : List Tick)
    (hput : ∀ t ∈ ticks, t.put.any Fate.applies = false) :
    ((Task.start db now_us).run c ticks).db.size ≤ db.size ∧
      ∀ b ∈ ((Task.start db now_us).run c ticks).history, b.stored ≤ db.size := by
  induction ticks using List.reverseRecOn with
  | nil => exact ⟨le_rfl, by simp [Task.run, Task.start]⟩
  | append_singleton ticks t ih =>
      obtain ⟨hsize, hall⟩ := ih fun t ht => hput t (List.mem_append_left _ ht)
      have hnot := hput t (List.mem_append_right _ (List.mem_singleton_self t))
      rw [Task.run_snoc]
      generalize (Task.start db now_us).run c ticks = s at hsize hall ⊢
      rcases s.step_cases c t with hquiet | ⟨s₁, hquiet, hsend⟩
      · rw [hquiet.db, hquiet.history]
        exact ⟨hsize, hall⟩
      · rw [← hquiet.db, ← hquiet.history] at *
        have hstored : (s₁.batch c t).stored = s₁.db.size := by
          simp [Task.batch, Task.dbAfterPut, hnot]
        have hleft : (s₁.batch c t).left ≤ (s₁.batch c t).stored := by
          rw [Batch.left]
          split <;> omega
        rw [hsend.db, hsend.history, size_send, history_send]
        refine ⟨by omega, fun b hb => ?_⟩
        rcases List.mem_append.mp hb with hold | hnew
        · exact hall b hold
        · rw [List.mem_singleton.mp hnew]
          omega

/-- With exact arithmetic no `high_water` is above `MAX_BYTES + 50`. -/
theorem high_water_le (c : Setting) (db : Store Bytes Bytes) (now_us : Int) (ticks : List Tick) :
    ∀ b ∈ ((Task.start db now_us).run c.exact ticks).history, b.high_water ≤ MAX_BYTES + 50 := by
  refine retention_rule c.exact db now_us
    (P := fun _ _ history => ∀ b ∈ history, Batch.high_water b ≤ MAX_BYTES + 50)
    (by simp) (fun s t ih b hb => ?_) ticks
  rcases List.mem_append.mp hb with hold | hnew
  · exact ih b hold
  · rw [List.mem_singleton.mp hnew, high_water_exact]
    have hle : (s.batch c.exact t).max_items ≤ MAX_BYTES := maxItems_le _
    omega

/-- A run that is long enough trims, whether records are stored or not. -/
theorem exists_trim (c : Setting) (db : Store Bytes Bytes) (now_us : Int) (ticks : List Tick)
    (hlong : MAX_BYTES + 50 < ((Task.start db now_us).run c.exact ticks).history.length)
    (hlen : ((Task.start db now_us).run c.exact ticks).history.length < 2 ^ 32) :
    ∃ b ∈ ((Task.start db now_us).run c.exact ticks).history, b.trim.isSome := by
  by_contra hno
  have hnone : ∀ b ∈ ((Task.start db now_us).run c.exact ticks).history, b.trim = none := by
    intro b hb
    by_contra hsome
    exact hno ⟨b, hb, Option.ne_none_iff_isSome.mp hsome⟩
  have hget := List.getElem?_eq_getElem hlong
  have hbelow := estimate_of_no_trim c.exact db now_us ticks hlen hnone _ _ hget
  have hwater := high_water_le c db now_us ticks _ (List.getElem_mem hlong)
  omega

/-- A round whose read succeeds and whose `PUT`, if there is one, fails. -/
def failingTick : Tick :=
  ⟨some ⟨400, 20, 50, 1, 2, 3, 4, 100, 1, 20, 50, 20, 50⟩, 1758000000, [.notApplied], ⟨0, 0⟩, 0⟩

/-- The number of batches when all reads succeed. -/
theorem length_history_replicate (c : Setting) (db : Store Bytes Bytes) (now_us : Int) (n : ℕ) :
    ((Task.start db now_us).run c.exact (List.replicate (5 * n) failingTick)).history.length
      = n := by
  obtain ⟨chunks, pending, h⟩ := sampled_run (c := c.exact) rfl db now_us
    (List.replicate (5 * n) failingTick)
  have hreads := congrArg List.length h.split
  have hsent := h.sent.length_eq
  have hfew := h.few
  have hsome : (List.replicate (5 * n) failingTick).filterMap Tick.read
      = List.replicate (5 * n) ⟨400, 20, 50, 1, 2, 3, 4, 100, 1, 20, 50, 20, 50⟩ := by
    simp [failingTick]
  rw [hsome, List.length_replicate, List.length_append, length_flatten_five h.five] at hreads
  omega

/-- **A trim of the empty database.** In a run of `10485811` batches whose `PUT`s all fail,
the oldest records are trimmed at some point, although none is stored. -/
theorem trim_of_empty_database :
    ¬ ∀ (c : Setting) (db : Store Bytes Bytes) (now_us : Int) (ticks : List Tick),
      ∀ b ∈ ((Task.start db now_us).run c.exact ticks).history, b.trim.isSome →
        b.max_items < b.stored := by
  intro h
  have hlen := length_history_replicate someDevice emptyDatabase 0 10485811
  have hclaim := h someDevice emptyDatabase 0 (List.replicate (5 * 10485811) failingTick)
  have hput : ∀ t ∈ List.replicate (5 * 10485811) failingTick, t.put.any Fate.applies = false := by
    intro t ht
    rw [List.eq_of_mem_replicate ht]
    rfl
  obtain ⟨-, hstored⟩ := stored_of_no_put someDevice.exact emptyDatabase 0 _ hput
  obtain ⟨b, hb, htrim⟩ := exists_trim someDevice emptyDatabase 0
    (List.replicate (5 * 10485811) failingTick) (by rw [hlen]; decide) (by rw [hlen]; decide)
  have hzero : b.stored ≤ 0 := hstored b hb
  have hlt := hclaim b hb htrim
  omega

end PppAmb
