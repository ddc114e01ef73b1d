import PppAmb.SensorTask

/-!
# Samples and Averages

What the accumulators of `sensor_task` hold and what goes into a record, over every
sequence of successful and failed reads. Floating-point sums are exact here.

## Main results

* `Sampled.step`: one round keeps the invariant.
* `batches_exact`: after any number of rounds, the record with number `k` holds the averages
  of the successful samples `5 * k` to `5 * k + 4`, and the accumulators hold the rest.
-/

namespace PppAmb

/-- The sums of some samples. -/
def total (ds : List SensorData) : Sums where
  pm1p0 := (ds.map SensorData.pm1p0).sum
  pm2p5 := (ds.map SensorData.pm2p5).sum
  pm4p0 := (ds.map SensorData.pm4p0).sum
  pm10p0 := (ds.map SensorData.pm10p0).sum
  voc := (ds.map SensorData.voc).sum
  nox := (ds.map SensorData.nox).sum
  avg_temp := (ds.map SensorData.avg_temp).sum
  avg_hum := (ds.map SensorData.avg_hum).sum

/-- The sum of the CO2 values of some samples. -/
def totalCo2 (ds : List SensorData) : ℕ :=
  (ds.map fun d => d.co2.toNat).sum

/-- The averages of some samples: exact means, and the floor of the mean for CO2. The
separate temperatures and humidities of the two sensors are set to the common ones. -/
structure AveragesOf (ds : List SensorData) (avg : SensorData) : Prop where
  co2 : avg.co2.toNat = totalCo2 ds / ds.length
  pm1p0 : avg.pm1p0 = (total ds).pm1p0 / ds.length
  pm2p5 : avg.pm2p5 = (total ds).pm2p5 / ds.length
  pm4p0 : avg.pm4p0 = (total ds).pm4p0 / ds.length
  pm10p0 : avg.pm10p0 = (total ds).pm10p0 / ds.length
  voc : avg.voc = (total ds).voc / ds.length
  nox : avg.nox = (total ds).nox / ds.length
  avg_temp : avg.avg_temp = (total ds).avg_temp / ds.length
  avg_hum : avg.avg_hum = (total ds).avg_hum / ds.length
  scd : avg.scd_temp = avg.avg_temp ∧ avg.scd_hum = avg.avg_hum
  sen : avg.sen_temp = avg.avg_temp ∧ avg.sen_hum = avg.avg_hum

/-! ### Sums -/

theorem total_snoc (ds : List SensorData) (d : SensorData) :
    total (ds ++ [d]) = (total ds).add .exact d := by
  simp [total, Sums.add, Arith.exact]

theorem totalCo2_snoc (ds : List SensorData) (d : SensorData) :
    totalCo2 (ds ++ [d]) = totalCo2 ds + d.co2.toNat := by
  simp [totalCo2]

theorem totalCo2_le (ds : List SensorData) : totalCo2 ds ≤ ds.length * 65535 := by
  induction ds with
  | nil => simp [totalCo2]
  | cons d ds ih =>
      have hd : d.co2.toNat < 65536 := d.co2.toNat_lt
      have hcons : totalCo2 (d :: ds) = d.co2.toNat + totalCo2 ds := by simp [totalCo2]
      rw [hcons, List.length_cons]
      omega

/-- Few samples do not overflow the 32-bit sum. -/
theorem toNat_add_co2 {n : UInt32} {ds : List SensorData} (hn : n.toNat = totalCo2 ds)
    (hlen : ds.length ≤ 5) (d : SensorData) :
    (n + d.co2.toUInt32).toNat = n.toNat + d.co2.toNat := by
  have hle := totalCo2_le ds
  have hd : d.co2.toNat < 65536 := d.co2.toNat_lt
  rw [UInt32.toNat_add, UInt16.toNat_toUInt32, Nat.mod_eq_of_lt (by omega)]

/-! ### The invariant -/

/-- **The invariant.** The successful samples `ds` are made up of the chunks the records
were built from, five samples each, and of the pending ones. -/
structure Sampled (s : Task) (ds : List SensorData) (chunks : List (List SensorData))
    (pending : List SensorData) : Prop where
  split : ds = chunks.flatten ++ pending
  five : ∀ chunk ∈ chunks, chunk.length = 5
  sent : List.Forall₂ (fun chunk (b : Batch) => AveragesOf chunk b.record.avg) chunks s.history
  few : pending.length < 5
  count : s.sample_count = pending.length
  sums : s.sums = total pending
  co2 : s.sum_co2.toNat = totalCo2 pending

variable {c : Setting} {s : Task} {ds pending : List SensorData} {chunks : List (List SensorData)}

theorem sampled_start (db : Store Bytes Bytes) (now_us : Int) :
    Sampled (Task.start db now_us) [] [] [] :=
  ⟨rfl, by simp, .nil, by simp, rfl, by simp [Task.start, total, Sums.zero], rfl⟩

/-- The invariant does not look at the timer. -/
theorem Sampled.same {s' : Task} (h : Sampled s ds chunks pending) (hs : SameBut s s') :
    Sampled s' ds chunks pending :=
  ⟨h.split, h.five, hs.history ▸ h.sent, h.few, hs.sample_count.trans h.count,
    hs.sums.trans h.sums, (congrArg UInt32.toNat hs.sum_co2).trans h.co2⟩

/-- The averages of five pending samples. -/
theorem averagesOf_avg (hexact : c.arith = .exact) (hcount : s.sample_count = pending.length)
    (hlen : pending.length = 5) (hsums : s.sums = total pending)
    (hco2 : s.sum_co2.toNat = totalCo2 pending) : AveragesOf pending (s.avg c.arith) := by
  have hle := totalCo2_le pending
  have hco2' : (s.avg c.arith).co2.toNat = totalCo2 pending / pending.length := by
    have h5 : (UInt32.ofNat 5).toNat = 5 := rfl
    simp only [Task.avg, hcount, hlen]
    rw [UInt32.toNat_toUInt16, UInt32.toNat_div, hco2, h5, Nat.mod_eq_of_lt (by omega)]
  refine ⟨hco2', ?_, ?_, ?_, ?_, ?_, ?_, ?_, ?_, ⟨rfl, rfl⟩, ⟨rfl, rfl⟩⟩ <;>
    simp [Task.avg, hexact, Arith.exact, hsums, hcount]

/-- A successful read makes one more pending sample. -/
theorem sample_pending (hexact : c.arith = .exact) (h : Sampled s ds chunks pending)
    (d : SensorData) :
    (s.sample c.arith d).sample_count = (pending ++ [d]).length ∧
      (s.sample c.arith d).sums = total (pending ++ [d]) ∧
      (s.sample c.arith d).sum_co2.toNat = totalCo2 (pending ++ [d]) := by
  have hfew := h.few
  refine ⟨?_, ?_, ?_⟩
  · simp [Task.sample, h.count]
  · rw [total_snoc, ← h.sums, hexact]
    rfl
  · rw [totalCo2_snoc, ← h.co2]
    exact toNat_add_co2 h.co2 (by omega) d

/-- A failed read changes nothing but the timer while fewer than five samples are
pending. -/
theorem step_of_failed_read {t : Tick} (hcount : s.sample_count < 5) (ht : t.read = none) :
    SameBut s (s.step c t) := by
  have hcollect : s.collect c.arith t = s := by rw [Task.collect, ht]
  have hfew : ¬ s.sample_count ≥ SAMPLES_PER_BATCH := by
    rw [SAMPLES_PER_BATCH]
    omega
  rw [Task.step, hcollect]
  simp only [hfew, if_false]
  exact Task.timer_same s t

/-- **One round keeps the invariant**: a failed read leaves it as it is, a successful one
adds a pending sample, and five pending samples become the chunk of a record. -/
theorem Sampled.step (hexact : c.arith = .exact) (h : Sampled s ds chunks pending) (t : Tick) :
    ∃ chunks' pending', Sampled (s.step c t) (ds ++ t.read.toList) chunks' pending' := by
  have hfew := h.few
  cases hread : t.read with
  | none =>
      refine ⟨chunks, pending, ?_⟩
      rw [Option.toList_none, List.append_nil]
      exact h.same (step_of_failed_read (by rw [h.count]; exact hfew) hread)
  | some d =>
      have hcollect : s.collect c.arith t = s.sample c.arith d := by rw [Task.collect, hread]
      obtain ⟨hcount, hsums, hco2⟩ := sample_pending hexact h d
      have hsplit : ds ++ [d] = chunks.flatten ++ (pending ++ [d]) := by
        rw [h.split, List.append_assoc]
      rw [Task.step, hcollect, Option.toList_some]
      by_cases hfull : (s.sample c.arith d).sample_count ≥ SAMPLES_PER_BATCH
      · simp only [hfull, if_true]
        have hlen : (pending ++ [d]).length = 5 := by
          rw [List.length_append, List.length_singleton]
          rw [hcount, SAMPLES_PER_BATCH, List.length_append, List.length_singleton] at hfull
          omega
        have havg := averagesOf_avg hexact hcount hlen hsums hco2
        refine ⟨chunks ++ [pending ++ [d]], [], Sampled.same ?_ (Task.timer_same _ t)⟩
        refine ⟨by simp [hsplit], ?_, ?_, by simp, rfl, by simp [Task.send, total, Sums.zero], rfl⟩
        · intro chunk hchunk
          rcases List.mem_append.mp hchunk with hold | hnew
          · exact h.five chunk hold
          · rw [List.mem_singleton.mp hnew, hlen]
        · exact List.rel_append h.sent (.cons havg .nil)
      · simp only [hfull, if_false]
        refine ⟨chunks, pending ++ [d], Sampled.same ?_ (Task.timer_same _ t)⟩
        refine ⟨hsplit, h.five, h.sent, ?_, hcount, hsums, hco2⟩
        rw [hcount, SAMPLES_PER_BATCH] at hfull
        omega

/-- The invariant holds after every run. -/
theorem sampled_run (hexact : c.arith = .exact) (db : Store Bytes Bytes) (now_us : Int)
    (ticks : List Tick) :
    ∃ chunks pending, Sampled ((Task.start db now_us).run c ticks) (ticks.filterMap Tick.read)
      chunks pending := by
  induction ticks using List.reverseRecOn with
  | nil => exact ⟨[], [], sampled_start db now_us⟩
  | append_singleton ticks t ih =>
      obtain ⟨chunks, pending, h⟩ := ih
      obtain ⟨chunks', pending', h'⟩ := h.step hexact t
      refine ⟨chunks', pending', ?_⟩
      rw [Task.run_snoc, List.filterMap_append]
      have hlast : [t].filterMap Tick.read = t.read.toList := by
        cases hread : t.read <;> simp [hread]
      rwa [hlast]

/-! ### Numbers of samples -/

/-- Chunks of five samples are found by their number. -/
theorem drop_take_flatten : ∀ {chunks : List (List SensorData)} {k : ℕ} {chunk : List SensorData},
    (∀ chunk ∈ chunks, chunk.length = 5) → chunks[k]? = some chunk → ∀ pending : List SensorData,
      ((chunks.flatten ++ pending).drop (5 * k)).take 5 = chunk := by
  intro chunks
  induction chunks with
  | nil =>
      intro k chunk _ hk
      simp at hk
  | cons first chunks ih =>
      intro k chunk hfive hk pending
      have hfirst : first.length = 5 := hfive first (by simp)
      rw [List.flatten_cons, List.append_assoc]
      cases k with
      | zero =>
          obtain rfl : first = chunk := by simpa using hk
          rw [Nat.mul_zero, List.drop_zero, ← hfirst, List.take_left]
      | succ k =>
          have hrest : ∀ chunk ∈ chunks, chunk.length = 5 := fun chunk h =>
            hfive chunk (List.mem_cons_of_mem first h)
          have hdrop : (first ++ (chunks.flatten ++ pending)).drop (5 * (k + 1))
              = (chunks.flatten ++ pending).drop (5 * k) := by
            rw [List.drop_append, List.drop_of_length_le (by omega), List.nil_append, hfirst]
            congr 1
          rw [hdrop]
          exact ih hrest (by simpa using hk) pending

theorem length_flatten_five (hfive : ∀ chunk ∈ chunks, chunk.length = 5) :
    chunks.flatten.length = 5 * chunks.length := by
  induction chunks with
  | nil => rfl
  | cons first chunks ih =>
      have hfirst : first.length = 5 := hfive first (by simp)
      have hrest := ih fun chunk h => hfive chunk (List.mem_cons_of_mem first h)
      rw [List.flatten_cons, List.length_append, hfirst, hrest, List.length_cons]
      omega

/-- The same setting with exact arithmetic. -/
def Setting.exact (c : Setting) : Setting :=
  { c with arith := .exact }

/-- What is to hold at the end of a round of a run whose successful reads were `ds`. -/
structure ExactBatches (c : Setting) (s : Task) (ds : List SensorData) : Prop where
  below : s.sample_count < 5
  count : s.sample_count = ds.length % 5
  sent : s.history.length = ds.length / 5
  /-- The record with number `k` is built from the samples `5 * k` to `5 * k + 4`. -/
  built : ∀ k b, s.history[k]? = some b → ((ds.drop (5 * k)).take 5).length = 5 ∧
    AveragesOf ((ds.drop (5 * k)).take 5) b.record.avg
  /-- All later samples are in the accumulators. -/
  pendingSums : s.sums = total (ds.drop (5 * s.history.length))
  pendingCo2 : s.sum_co2.toNat = totalCo2 (ds.drop (5 * s.history.length))
  /-- The next sample does not overflow the 32-bit sum either. -/
  noWrap : ∀ d : SensorData, (s.sum_co2 + d.co2.toUInt32).toNat = s.sum_co2.toNat + d.co2.toNat
  /-- A failed read changes no accumulator. -/
  failedRead : ∀ t : Tick, t.read = none → (s.step c t).sample_count = s.sample_count ∧
    (s.step c t).sums = s.sums ∧ (s.step c t).sum_co2 = s.sum_co2

/-- **Batches are exact.** For every sequence of reads, at the end of every round. -/
theorem batches_exact (c : Setting) (db : Store Bytes Bytes) (now_us : Int) (ticks : List Tick) :
    ExactBatches c.exact ((Task.start db now_us).run c.exact ticks)
      (ticks.filterMap Tick.read) := by
  obtain ⟨chunks, pending, h⟩ := sampled_run (c := c.exact) rfl db now_us ticks
  have hfew := h.few
  have hflat := length_flatten_five h.five
  have hsent := h.sent.length_eq
  have hlen : (ticks.filterMap Tick.read).length = 5 * chunks.length + pending.length := by
    rw [h.split, List.length_append, hflat]
  have hpending : (ticks.filterMap Tick.read).drop (5 * chunks.length) = pending := by
    rw [h.split, ← hflat, List.drop_left]
  refine ⟨?_, ?_, ?_, ?_, ?_, ?_, ?_, ?_⟩
  · rw [h.count]
    exact hfew
  · rw [h.count, hlen]
    omega
  · rw [← hsent, hlen]
    omega
  · intro k b hk
    have hlt : k < chunks.length := by
      rw [hsent]
      exact (List.getElem?_eq_some_iff.mp hk).1
    have hchunk : chunks[k]? = some chunks[k] := List.getElem?_eq_getElem hlt
    have htake := drop_take_flatten h.five hchunk pending
    rw [← h.split] at htake
    obtain ⟨hlt', hb⟩ := List.getElem?_eq_some_iff.mp hk
    rw [htake]
    refine ⟨h.five _ (List.getElem_mem hlt), ?_⟩
    rw [← hb]
    exact List.forall₂_iff_get.mp h.sent |>.2 k hlt hlt'
  · rw [← hsent, hpending]
    exact h.sums
  · rw [← hsent, hpending]
    exact h.co2
  · exact toNat_add_co2 h.co2 (by omega)
  · intro t ht
    have hsame := step_of_failed_read (c := c.exact) (by rw [h.count]; exact hfew) ht
    exact ⟨hsame.sample_count, hsame.sums, hsame.sum_co2⟩

end PppAmb
