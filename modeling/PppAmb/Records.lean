import PppAmb.Run
import PppAmb.SensorTask

/-!
# What a Reader of the Records Can Recover

The first record of a run carries the metadata of the session, and the date is sent only
when it changes. `sensor_task` keeps track of this with `first_send` and
`last_fecha_str`, which it updates whether the record reaches the database or not.

## Main results

* `fecha_inj`: the printed date tells the date.
* `sender_run`: what the variables of the sender say about the batches sent so far.
* `readable_iff`: what has reached the database can be read back exactly when no failed
  `PUT` has left a gap.
* `metadata_lost`: if the first `PUT` fails and the second does not, the metadata is lost.
-/

namespace PppAmb

/-! ### Dates -/

theorem fecha_eq (tm : Tm) : tm.fecha =
    twoDigits tm.mday ++ ch '-' :: (twoDigits tm.mon ++ ch '-' :: ascii (toString tm.year)) := by
  have hyear : ascii (toString tm.year) ++ [] = ascii (toString tm.year) := List.append_nil _
  rw [← hyear]
  rfl

/-- The records of a run carry the times of its rounds. -/
theorem batch_times (c : Setting) (db : Store Bytes Bytes) (now_us : Int) (ticks : List Tick) :
    ∀ b ∈ ((Task.start db now_us).run c ticks).history,
      ∃ t ∈ ticks, b.record.tm = localtime_r UTC6 t.now_epoch.toInt := by
  induction ticks using List.reverseRecOn with
  | nil => exact fun b hb => absurd hb (by simp [Task.run, Task.start])
  | append_singleton ticks t ih =>
      have hmore : ∀ b ∈ ((Task.start db now_us).run c ticks).history, ∃ t' ∈ ticks ++ [t],
          b.record.tm = localtime_r UTC6 t'.now_epoch.toInt := by
        intro b hb
        obtain ⟨t', ht', hb'⟩ := ih b hb
        exact ⟨t', List.mem_append_left _ ht', hb'⟩
      rw [Task.run_snoc]
      rcases ((Task.start db now_us).run c ticks).step_cases c t with hquiet | ⟨s₁, hquiet, hsend⟩
      · rw [hquiet.history]
        exact hmore
      · have hhistory : (s₁.send c t).history = s₁.history ++ [s₁.batch c t] := rfl
        have hlast : (s₁.batch c t).record.tm = localtime_r UTC6 t.now_epoch.toInt := rfl
        rw [hsend.history, hhistory, hquiet.history]
        intro b hb
        rcases List.mem_append.mp hb with hold | hnew
        · exact hmore b hold
        · exact ⟨t, by simp, List.mem_singleton.mp hnew ▸ hlast⟩

theorem localtime_range (epoch : Int) :
    (localtime_r UTC6 epoch).mday < 100 ∧ (localtime_r UTC6 epoch).mon < 100 := by
  have hday := civil_day_range ((epoch - UTC6) / 86400)
  have hmon := civil_month_range ((epoch - UTC6) / 86400)
  simp only [localtime_r]
  omega

/-- The printed date tells the date. -/
theorem fecha_inj {epoch epoch' : Int}
    (h : (localtime_r UTC6 epoch).fecha = (localtime_r UTC6 epoch').fecha) :
    (localtime_r UTC6 epoch).date = (localtime_r UTC6 epoch').date := by
  obtain ⟨hday, hmon⟩ := localtime_range epoch
  obtain ⟨hday', hmon'⟩ := localtime_range epoch'
  generalize localtime_r UTC6 epoch = tm at h hday hmon ⊢
  generalize localtime_r UTC6 epoch' = tm' at h hday' hmon' ⊢
  rw [fecha_eq, fecha_eq] at h
  obtain ⟨hd, h⟩ := List.append_inj h rfl
  obtain ⟨hm, h⟩ := List.append_inj (List.cons.inj h).2 rfl
  have hy := ascii_toString_inj (List.cons.inj h).2
  rw [Tm.date, Tm.date, twoDigits_inj hday hday' hd, twoDigits_inj hmon hmon' hm, hy]

theorem fecha_of_date {tm tm' : Tm} (h : tm.date = tm'.date) : tm.fecha = tm'.fecha := by
  simp only [Tm.date, Date.mk.injEq] at h
  rw [fecha_eq, fecha_eq, h.1, h.2.1, h.2.2]

/-- The date of any `time_t` fits the array `last_fecha_str`. -/
theorem strlcpy_fecha (epoch : Int64) :
    strlcpy (localtime_r UTC6 epoch.toInt).fecha 20 = (localtime_r UTC6 epoch.toInt).fecha := by
  have hlo := epoch.le_toInt
  have hhi := epoch.toInt_lt
  have hutc : UTC6 = 21600 := rfl
  have hyear := civil_year_range ((epoch.toInt - UTC6) / 86400)
  have hlen : (ascii (toString (localtime_r UTC6 epoch.toInt).year)).length ≤ 13 := by
    refine length_toString_le (by omega) ?_ ?_ <;> simp only [localtime_r] <;> omega
  refine List.take_of_length_le ?_
  rw [fecha_eq]
  simp only [List.length_append, List.length_cons, twoDigits, List.length_nil]
  omega

/-! ### What can be read back -/

def Record.hasFecha (r : Record) : Bool :=
  .fecha ∈ r.fields

def Record.hasMetadata (r : Record) : Bool :=
  .inicio ∈ r.fields ∧ .ciudad ∈ r.fields ∧ .id ∈ r.fields

/-- The records that have reached the database, in the order in which they were sent. -/
def reached (history : List Batch) : List Record :=
  (history.filter Batch.reached).map Batch.record

/-- The date a reader carries forward: that of the latest record with a date. -/
def carried (records : List Record) : Option Date :=
  ((records.filter Record.hasFecha).getLast?).map fun r => r.tm.date

/-- **What a reader needs**: if there is any record, one carries the metadata of the
session; and every record without a date was taken on the date carried forward from the
closest earlier record that has one. -/
structure Readable (records : List Record) : Prop where
  metadata : records ≠ [] → ∃ r ∈ records, r.hasMetadata
  dates : ∀ before r after, records = before ++ r :: after → r.hasFecha = false →
    carried before = some r.tm.date

/-! ### The condition on times and outcomes -/

/-- The local date of each batch, and whether its `PUT` has reached the database. -/
def outcomes (history : List Batch) : List (Date × Bool) :=
  history.map fun b => (b.record.tm.date, b.reached)

/-- The date of the latest batch. -/
def latestDate (sent : List (Date × Bool)) : Option Date :=
  sent.getLast?.map Prod.fst

/-- The date of the latest batch that is the first one, or the first one of its date, and
has reached the database. -/
def storedOpening (sent : List (Date × Bool)) : Option Date :=
  (sent.foldl (fun state x => (some x.1,
    if state.1 ≠ some x.1 ∧ x.2 = true then some x.1 else state.2))
    ((none, none) : Option Date × Option Date)).2

/-- **No gap.** Whenever a batch reaches the database, the first batch of the run has
reached it; and if its date is that of the batch before it, the latest batch that opened a
date and has reached the database opened the same date. -/
def NoGap (sent : List (Date × Bool)) : Prop :=
  ∀ before x after, sent = before ++ x :: after → x.2 = true →
    (before.head?.getD x).2 = true ∧
      (latestDate before = some x.1 → storedOpening before = some x.1)

theorem storedOpening_snoc (sent : List (Date × Bool)) (x : Date × Bool) :
    storedOpening (sent ++ [x]) =
      if latestDate sent ≠ some x.1 ∧ x.2 = true then some x.1 else storedOpening sent := by
  have hfst : ∀ sent : List (Date × Bool), (sent.foldl (fun state x => (some x.1,
      if state.1 ≠ some x.1 ∧ x.2 = true then some x.1 else state.2))
      ((none, none) : Option Date × Option Date)).1 = latestDate sent := by
    intro sent
    induction sent using List.reverseRecOn with
    | nil => rfl
    | append_singleton sent y _ => simp [latestDate]
  rw [storedOpening, List.foldl_concat]
  simp only [hfst]
  rfl

/-! ### Adding one batch at the end -/

theorem noGap_snoc {sent : List (Date × Bool)} {x : Date × Bool} :
    NoGap (sent ++ [x]) ↔ NoGap sent ∧ (x.2 = true → (sent.head?.getD x).2 = true ∧
      (latestDate sent = some x.1 → storedOpening sent = some x.1)) :=
  forall_split_snoc (P := fun (before : List (Date × Bool)) (x : Date × Bool) =>
    x.2 = true → (before.head?.getD x).2 = true ∧
      (latestDate before = some x.1 → storedOpening before = some x.1))

theorem carried_snoc (records : List Record) (r : Record) :
    carried (records ++ [r]) = if r.hasFecha then some r.tm.date else carried records := by
  rw [carried, List.filter_append]
  cases hr : r.hasFecha <;> simp [hr, carried]

theorem readable_snoc {records : List Record} {r : Record} (h : Readable records) :
    Readable (records ++ [r]) ↔ (records ≠ [] ∨ r.hasMetadata) ∧
      (r.hasFecha = false → carried records = some r.tm.date) := by
  have hdates := forall_split_snoc (l := records) (x := r)
    (P := fun before r => r.hasFecha = false → carried before = some r.tm.date)
  constructor
  · rintro ⟨hmeta, hall⟩
    refine ⟨?_, (hdates.mp hall).2⟩
    by_cases hempty : records = []
    · subst hempty
      obtain ⟨r', hr', hm⟩ := hmeta (by simp)
      obtain rfl : r' = r := by simpa using hr'
      exact Or.inr hm
    · exact Or.inl hempty
  · rintro ⟨hmeta, hlast⟩
    refine ⟨fun _ => ?_, hdates.mpr ⟨h.dates, hlast⟩⟩
    rcases hmeta with hne | hm
    · obtain ⟨r', hr', hm⟩ := h.metadata hne
      exact ⟨r', List.mem_append_left _ hr', hm⟩
    · exact ⟨r, List.mem_append_right _ (List.mem_singleton_self r), hm⟩

/-- A reader of more records can read the earlier ones, unless only the last carries the
metadata. -/
theorem readable_of_snoc {records : List Record} {r : Record} (h : Readable (records ++ [r]))
    (hr : r.hasMetadata = true → records = []) : Readable records := by
  have hdates := forall_split_snoc (l := records) (x := r)
    (P := fun before r => r.hasFecha = false → carried before = some r.tm.date)
  refine ⟨fun hne => ?_, (hdates.mp h.dates).1⟩
  obtain ⟨r', hr', hm⟩ := h.metadata (by simp)
  rcases List.mem_append.mp hr' with hold | hnew
  · exact ⟨r', hold, hm⟩
  · obtain rfl := List.mem_singleton.mp hnew
    exact absurd (hr hm) hne

theorem reached_snoc (history : List Batch) (b : Batch) :
    reached (history ++ [b]) = reached history ++ if b.reached then [b.record] else [] := by
  rw [reached, List.filter_append, List.map_append]
  cases hb : b.reached <;> simp [hb, reached]

theorem outcomes_snoc (history : List Batch) (b : Batch) :
    outcomes (history ++ [b]) = outcomes history ++ [(b.record.tm.date, b.reached)] :=
  List.map_append

/-! ### The sender -/

theorem hasMetadata_iff (r : Record) : r.hasMetadata = true ↔ r.layout = .first := by
  cases hl : r.layout <;> simp [Record.hasMetadata, Record.fields, hl, measures, Layout.labels]

theorem hasFecha_iff (r : Record) : r.hasFecha = true ↔ r.layout ≠ .sameDate := by
  cases hl : r.layout <;> simp [Record.hasFecha, Record.fields, hl, measures, Layout.labels]

/-- **The sender**: `first_send` and `last_fecha_str` know the batches that were sent, the
database holds the metadata if it holds the first batch, and the date a reader carries
forward is that of the latest stored batch that opened a date. -/
structure Sender (first_send : Bool) (last_fecha_str : Bytes) (history : List Batch) : Prop where
  first : first_send = true ↔ history = []
  fecha : ∀ b, history.getLast? = some b → last_fecha_str = b.record.tm.fecha
  times : ∀ b ∈ history, ∃ epoch : Int64, b.record.tm = localtime_r UTC6 epoch.toInt
  metadata : (∃ r ∈ reached history, r.hasMetadata = true) ↔
    (outcomes history).head?.map Prod.snd = some true
  dates : carried (reached history) = storedOpening (outcomes history)

section Batches

variable {c : Setting} {s : Task}

/-- The local date of a round, and whether a `PUT` in it would reach the database. -/
def Tick.outcome (t : Tick) : Date × Bool :=
  ((localtime_r UTC6 t.now_epoch.toInt).date, t.put.any Fate.applies)

theorem outcomes_send (c : Setting) (s : Task) (t : Tick) :
    outcomes (s.send c t).history = outcomes s.history ++ [t.outcome] :=
  outcomes_snoc _ _

theorem latestDate_outcomes (history : List Batch) :
    latestDate (outcomes history) = history.getLast?.map fun b => b.record.tm.date := by
  rw [latestDate, outcomes, List.getLast?_map, Option.map_map]
  rfl

theorem Sender.hasMetadata (h : Sender s.first_send s.last_fecha_str s.history) (t : Tick) :
    (s.batch c t).record.hasMetadata = true ↔ s.history = [] := by
  rw [hasMetadata_iff, ← h.first]
  simp only [Task.batch, Task.record, Task.layout]
  cases s.first_send with
  | true => simp
  | false =>
      simp only [Bool.false_eq_true, if_false, iff_false]
      split <;> simp

/-- A record has a date exactly when it is not of the date of the batch before it. -/
theorem Sender.hasFecha (h : Sender s.first_send s.last_fecha_str s.history) (t : Tick) :
    (s.batch c t).record.hasFecha = true ↔
      latestDate (outcomes s.history) ≠ some (s.batch c t).record.tm.date := by
  rw [hasFecha_iff, latestDate_outcomes]
  simp only [Task.batch, Task.record, Task.layout]
  cases hlast : s.history.getLast? with
  | none =>
      have hempty := List.getLast?_eq_none_iff.mp hlast
      rw [h.first.mpr hempty]
      simp
  | some b =>
      have hmem := List.mem_of_getLast? hlast
      have hfirst : s.first_send = false := by
        cases hf : s.first_send with
        | false => rfl
        | true =>
            rw [h.first.mp hf] at hmem
            exact absurd hmem (by simp)
      obtain ⟨epoch, hepoch⟩ := h.times b hmem
      have hdate : (localtime_r UTC6 t.now_epoch.toInt).fecha = s.last_fecha_str ↔
          (localtime_r UTC6 t.now_epoch.toInt).date = b.record.tm.date := by
        rw [h.fecha b hlast, hepoch]
        exact ⟨fecha_inj, fecha_of_date⟩
      have hopens : (some b.record.tm.date ≠ some (localtime_r UTC6 t.now_epoch.toInt).date) ↔
          s.last_fecha_str ≠ (localtime_r UTC6 t.now_epoch.toInt).fecha := by
        rw [ne_eq, ne_eq, Option.some.injEq, eq_comm, ← hdate, eq_comm]
      rw [hfirst, Option.map_some, hopens]
      by_cases hsame : s.last_fecha_str = (localtime_r UTC6 t.now_epoch.toInt).fecha <;>
        simp [hsame]

/-- After a batch `last_fecha_str` is its date, whatever the layout was. -/
theorem last_fecha_send (s : Task) (t : Tick) :
    (s.send c t).last_fecha_str = (s.batch c t).record.tm.fecha := by
  have hcopy := strlcpy_fecha t.now_epoch
  simp only [Task.send, Task.nextFecha, Task.batch, Task.record, Task.layout]
  cases s.first_send with
  | true => simpa using hcopy
  | false =>
      by_cases hsame : s.last_fecha_str = (localtime_r UTC6 t.now_epoch.toInt).fecha
      · simp [hsame]
      · simpa [hsame] using hcopy

/-- The invariant is kept by a batch. -/
theorem Sender.batch (h : Sender s.first_send s.last_fecha_str s.history) (t : Tick) :
    Sender (s.send c t).first_send (s.send c t).last_fecha_str (s.send c t).history := by
  have hhistory : (s.send c t).history = s.history ++ [s.batch c t] := rfl
  have hreached := reached_snoc s.history (s.batch c t)
  have houtcomes := outcomes_snoc s.history (s.batch c t)
  rw [hhistory]
  refine ⟨?_, ?_, ?_, ?_, ?_⟩
  · constructor
    · intro hfirst
      exact absurd hfirst (by simp [Task.send])
    · intro hempty
      exact absurd hempty (by simp)
  · intro b hb
    obtain rfl : s.batch c t = b := by simpa using hb
    exact last_fecha_send s t
  · intro b hb
    rcases List.mem_append.mp hb with hold | hnew
    · exact h.times b hold
    · obtain rfl := List.mem_singleton.mp hnew
      exact ⟨t.now_epoch, rfl⟩
  · rw [hreached, houtcomes]
    by_cases hempty : s.history = []
    · have hmeta := (h.hasMetadata (c := c) t).mpr hempty
      rw [hempty]
      cases hb : (s.batch c t).reached <;> simp [hmeta, reached, outcomes]
    · have hmeta : (s.batch c t).record.hasMetadata ≠ true := mt (h.hasMetadata t).mp hempty
      have hne : outcomes s.history ≠ [] := by simpa [outcomes] using hempty
      rw [List.head?_append_of_ne_nil _ hne, ← h.metadata]
      cases hb : (s.batch c t).reached <;> simp [hmeta]
  · rw [hreached, houtcomes, storedOpening_snoc, ← h.dates]
    have hfecha := h.hasFecha (c := c) t
    cases hb : (s.batch c t).reached with
    | false => simp
    | true =>
        simp only [if_true, carried_snoc, and_true]
        by_cases hopens : (s.batch c t).record.hasFecha = true
        · rw [if_pos hopens, if_pos (hfecha.mp hopens)]
        · rw [if_neg hopens, if_neg (mt hfecha.mpr hopens)]

/-- If the records so far can be read, then one of them or the next one carries the
metadata exactly when the first batch has reached the database. -/
theorem Sender.metadata_next (h : Sender s.first_send s.last_fecha_str s.history)
    (hreadable : Readable (reached s.history)) (t : Tick) (hb : (s.batch c t).reached = true) :
    reached s.history ≠ [] ∨ (s.batch c t).record.hasMetadata = true ↔
      ((outcomes s.history).head?.getD t.outcome).2 = true := by
  by_cases hempty : s.history = []
  · have hmeta := (h.hasMetadata (c := c) t).mpr hempty
    have hout : t.outcome.2 = true := hb
    rw [hempty]
    simp [hmeta, outcomes, hout]
  · have hmeta : (s.batch c t).record.hasMetadata ≠ true := mt (h.hasMetadata t).mp hempty
    obtain ⟨first, rest, hsplit⟩ := List.exists_cons_of_ne_nil hempty
    have hfirst := h.metadata
    rw [hsplit] at hfirst ⊢
    rw [hsplit] at hreadable
    simp only [outcomes, List.map_cons, List.head?_cons, Option.map_some, Option.some.injEq,
      Option.getD_some] at hfirst ⊢
    rw [← hfirst]
    constructor
    · rintro (hne | hnew)
      · exact hreadable.metadata hne
      · exact absurd hnew hmeta
    · rintro ⟨r, hr, -⟩
      exact Or.inl (List.ne_nil_of_mem hr)

/-- A batch keeps the records readable exactly when it leaves no gap. -/
theorem Sender.readable_send (h : Sender s.first_send s.last_fecha_str s.history)
    (ih : Readable (reached s.history) ↔ NoGap (outcomes s.history)) (t : Tick) :
    Readable (reached (s.send c t).history) ↔ NoGap (outcomes (s.send c t).history) := by
  have hreached : reached (s.send c t).history = _ := reached_snoc s.history (s.batch c t)
  have hout : t.outcome.2 = (s.batch c t).reached := rfl
  rw [hreached, outcomes_send, noGap_snoc, ← ih, hout]
  cases hb : (s.batch c t).reached with
  | false => simp
  | true =>
      simp only [if_true, forall_const]
      have hfecha : (s.batch c t).record.hasFecha = false ↔
          latestDate (outcomes s.history) = some t.outcome.1 := by
        rw [← Bool.not_eq_true, h.hasFecha (c := c) t, not_not]
        rfl
      have hmeta : (s.batch c t).record.hasMetadata = true → reached s.history = [] := by
        intro hm
        rw [(h.hasMetadata t).mp hm]
        rfl
      have hiff : Readable (reached s.history) →
          (Readable (reached s.history ++ [(s.batch c t).record]) ↔
            ((outcomes s.history).head?.getD t.outcome).2 = true ∧
              (latestDate (outcomes s.history) = some t.outcome.1 →
                storedOpening (outcomes s.history) = some t.outcome.1)) := by
        intro hreadable
        rw [readable_snoc hreadable, h.metadata_next hreadable t hb, hfecha, h.dates]
        rfl
      constructor
      · intro hall
        have hreadable := readable_of_snoc hall hmeta
        exact ⟨hreadable, (hiff hreadable).mp hall⟩
      · rintro ⟨hreadable, hnext⟩
        exact (hiff hreadable).mpr hnext

end Batches

/-- The invariant holds after every run. -/
theorem sender_run (c : Setting) (db : Store Bytes Bytes) (now_us : Int) (ticks : List Tick) :
    Sender ((Task.start db now_us).run c ticks).first_send
      ((Task.start db now_us).run c ticks).last_fecha_str
      ((Task.start db now_us).run c ticks).history := by
  induction ticks using List.reverseRecOn with
  | nil => exact ⟨by simp [Task.run, Task.start], by simp [Task.run, Task.start],
      by simp [Task.run, Task.start], by simp [Task.run, Task.start, reached, outcomes], rfl⟩
  | append_singleton ticks t ih =>
      rw [Task.run_snoc]
      rcases ((Task.start db now_us).run c ticks).step_cases c t with hquiet | ⟨s₁, hquiet, hsend⟩
      · rwa [hquiet.first_send, hquiet.last_fecha_str, hquiet.history]
      · rw [hsend.first_send, hsend.last_fecha_str, hsend.history]
        rw [← hquiet.first_send, ← hquiet.last_fecha_str, ← hquiet.history] at ih
        exact ih.batch t

/-! ### The rounds in which a batch is sent -/

/-- Every fifth element. -/
def everyFifth {α : Type} : List α → List α
  | _ :: _ :: _ :: _ :: e :: rest => e :: everyFifth rest
  | _ => []

theorem everyFifth_snoc {α : Type} (l : List α) (x : α) :
    everyFifth (l ++ [x]) = everyFifth l ++ if (l.length + 1) % 5 = 0 then [x] else [] := by
  fun_induction everyFifth l with
  | case1 _ _ _ _ e rest ih =>
      have hlen : (rest.length + 1 + 1 + 1 + 1 + 1 + 1) % 5 = (rest.length + 1) % 5 := by omega
      simp only [List.cons_append, everyFifth, ih, List.length_cons, hlen]
  | case2 l hshort =>
      rcases l with _ | ⟨a, _ | ⟨b, _ | ⟨c, _ | ⟨d, _ | ⟨e, rest⟩⟩⟩⟩⟩
      · rfl
      · rfl
      · rfl
      · rfl
      · simp [everyFifth]
      · exact absurd rfl (hshort a b c d e rest)

/-- The rounds whose read succeeds. -/
def reads (ticks : List Tick) : List Tick :=
  ticks.filter fun t => t.read.isSome

/-- The dates and outcomes of the batches of a run: a batch is sent at every fifth
successful read. -/
def sent (ticks : List Tick) : List (Date × Bool) :=
  (everyFifth (reads ticks)).map Tick.outcome

theorem outcomes_run (c : Setting) (db : Store Bytes Bytes) (now_us : Int) (ticks : List Tick) :
    ((Task.start db now_us).run c ticks).sample_count = (reads ticks).length % 5 ∧
      outcomes ((Task.start db now_us).run c ticks).history = sent ticks := by
  induction ticks using List.reverseRecOn with
  | nil => exact ⟨rfl, rfl⟩
  | append_singleton ticks t ih =>
      rw [Task.run_snoc]
      generalize (Task.start db now_us).run c ticks = s at ih ⊢
      obtain ⟨hcount, houtcomes⟩ := ih
      have htimer := fun s : Task => s.timer_same t
      cases hread : t.read with
      | none =>
          have hreads : reads (ticks ++ [t]) = reads ticks := by simp [reads, hread]
          have hfew : ¬ s.sample_count ≥ SAMPLES_PER_BATCH := by
            have := Nat.mod_lt (reads ticks).length (by omega : 5 > 0)
            rw [SAMPLES_PER_BATCH]
            omega
          rw [sent, hreads, ← sent]
          simp only [Task.step, Task.collect, hread, hfew, if_false, (htimer s).sample_count,
            (htimer s).history]
          exact ⟨hcount, houtcomes⟩
      | some d =>
          have hreads : reads (ticks ++ [t]) = reads ticks ++ [t] := by simp [reads, hread]
          rw [sent, hreads, everyFifth_snoc, List.map_append, ← sent, ← houtcomes,
            List.length_append, List.length_singleton]
          simp only [Task.step, Task.collect, hread]
          by_cases hfull : (s.sample c.arith d).sample_count ≥ SAMPLES_PER_BATCH
          · have hmod : ((reads ticks).length + 1) % 5 = 0 := by
              simp only [Task.sample, SAMPLES_PER_BATCH] at hfull
              omega
            rw [if_pos hfull, if_pos hmod, (htimer _).sample_count, (htimer _).history,
              outcomes_send, hmod]
            exact ⟨rfl, rfl⟩
          · have hmod : ((reads ticks).length + 1) % 5 = s.sample_count + 1 := by
              simp only [Task.sample, SAMPLES_PER_BATCH] at hfull
              omega
            rw [if_neg hfull, (htimer _).sample_count, (htimer _).history, hmod, if_neg (by omega)]
            exact ⟨rfl, (List.append_nil _).symm⟩

/-! ### Gaps -/

/-- **When the records can be read.** At the end of every round of every run, the records
that have reached the database can be read back exactly when no failed `PUT` has left a
gap. -/
theorem readable_iff (c : Setting) (db : Store Bytes Bytes) (now_us : Int) (ticks : List Tick) :
    Readable (reached ((Task.start db now_us).run c ticks).history) ↔ NoGap (sent ticks) := by
  rw [← (outcomes_run c db now_us ticks).2]
  induction ticks using List.reverseRecOn with
  | nil =>
      constructor
      · intro _ before x after heq
        exact absurd heq (by simp [Task.run, Task.start, outcomes])
      · intro _
        exact ⟨fun hne => absurd rfl hne, fun before r after heq =>
          absurd heq (by simp [Task.run, Task.start, reached])⟩
  | append_singleton ticks t ih =>
      have hsender := sender_run c db now_us ticks
      rw [Task.run_snoc]
      generalize (Task.start db now_us).run c ticks = s at ih hsender ⊢
      rcases s.step_cases c t with hquiet | ⟨s₁, hquiet, hsend⟩
      · rwa [hquiet.history]
      · rw [← hquiet.first_send, ← hquiet.last_fecha_str, ← hquiet.history] at hsender
        rw [← hquiet.history] at ih
        rw [hsend.history]
        exact hsender.readable_send ih t

/-- A round whose read succeeds, with what becomes of the `PUT` if there is one. -/
def putTick (fate : Fate) : Tick :=
  ⟨some ⟨400, 20, 50, 1, 2, 3, 4, 100, 1, 20, 50, 20, 50⟩, 1758000000, [fate], ⟨0, 0⟩, 0⟩

/-- Two batches; only the `PUT` of the second is applied. -/
def firstPutFails : List Tick :=
  List.replicate 5 (putTick .notApplied) ++ List.replicate 5 (putTick .applied)

/-- **The metadata is lost.** If the first `PUT` fails and the second does not, the
database holds a record without a date and nothing that carries the metadata. -/
theorem metadata_lost :
    ¬ ∀ (c : Setting) (db : Store Bytes Bytes) (now_us : Int) (ticks : List Tick),
      Readable (reached ((Task.start db now_us).run c ticks).history) := by
  intro h
  have hclaim := (h ⟨.exact, .of (ascii "city"), .of (ascii "id"), ascii "00:00:00"⟩
    ⟨[], List.Pairwise.nil⟩ 0 firstPutFails).metadata
  have hlayouts : (reached ((Task.start ⟨[], List.Pairwise.nil⟩ 0).run
      ⟨.exact, .of (ascii "city"), .of (ascii "id"), ascii "00:00:00"⟩
      firstPutFails).history).map Record.layout = [.sameDate] := by
    decide +kernel
  generalize reached _ = records at hclaim hlayouts
  obtain ⟨r, rest, rfl⟩ : ∃ r rest, records = r :: rest :=
    List.exists_cons_of_ne_nil (by rintro rfl; simp at hlayouts)
  obtain ⟨r', hr', hm⟩ := hclaim (by simp)
  have hmem := List.mem_map_of_mem (f := Record.layout) hr'
  rw [hlayouts, (hasMetadata_iff r').mp hm] at hmem
  exact absurd hmem (by simp)

end PppAmb
