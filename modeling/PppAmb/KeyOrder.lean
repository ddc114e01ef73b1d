import PppAmb.Records

/-!
# The Order of the Keys

The database keeps the records in the order of their keys, and a trim removes the first of
them. The key of a record is the local time of its batch with a year of two digits, and the
time is taken as it is after `init_sntp_and_time` has waited for the clock, synchronised or
not. This module relates the order of the keys to the order in which the records were sent,
over every run in which the clock does not go back.

## Main results

* `clave_lt_iff`: the order of two keys in terms of the times.
* `clave_lt_iff_epoch_lt`: keys of this century are in the order of their times, and fit the
  arrays they are written to.
* `key_order_iff`: the records of a run are in key order, and trims have removed those sent
  first, exactly when no two records stand on different sides of the turn of the century
  with less than 100 years between them.
* `synchronised_in_order`: a run that starts with a synchronised clock is in order.
* `unsynchronised_out_of_order`: a run that starts without one need not be.
-/

namespace PppAmb

/-! ### Keys -/

theorem clave_eq (tm : Tm) : tm.clave =
    twoDigits (tm.year % 100).toNat ++ (ch '-' :: (twoDigits tm.mon ++ (ch '-' :: (twoDigits tm.mday ++
      (ch '_' :: (twoDigits tm.hour ++ (ch '-' :: (twoDigits tm.min ++ (ch '-' ::
        (twoDigits tm.sec ++ [])))))))))) := rfl

theorem digit_lt_iff {m n : ℕ} : digit m < digit n ↔ m % 10 < n % 10 := by
  have hm : (digit m).toNat = 48 + m % 10 := by
    rw [digit, UInt8.toNat_ofNat']
    omega
  have hn : (digit n).toNat = 48 + n % 10 := by
    rw [digit, UInt8.toNat_ofNat']
    omega
  rw [UInt8.lt_iff_toNat_lt, hm, hn]
  omega

/-- Texts that start with two digits. -/
theorem twoDigits_append_lt_iff {m n : ℕ} (hm : m < 100) (hn : n < 100) {r r' : Bytes} :
    twoDigits m ++ r < twoDigits n ++ r' ↔ m < n ∨ (m = n ∧ r < r') := by
  have heq : ∀ {a b : ℕ}, digit a = digit b ↔ a % 10 = b % 10 := by
    intro a b
    refine ⟨digit_inj, fun h => ?_⟩
    rw [digit, digit, h]
  simp only [twoDigits, List.cons_append, List.nil_append, List.cons_lt_cons_iff, digit_lt_iff, heq]
  by_cases hr : r < r'
  · simp only [hr, and_true]
    omega
  · simp only [hr, and_false, or_false]
    omega

/-- The parts of a time that `localtime_r` gives, without the year. -/
structure Tm.InRange (tm : Tm) : Prop where
  mon : tm.mon < 100
  mday : tm.mday < 100
  hour : tm.hour < 100
  min : tm.min < 100
  sec : tm.sec < 100

theorem localtime_inRange (epoch : Int) : (localtime_r UTC6 epoch).InRange := by
  obtain ⟨hday, hmon⟩ := localtime_range epoch
  refine ⟨hmon, hday, ?_, ?_, ?_⟩ <;> simp only [localtime_r] <;> omega

/-- **The order of the keys** is the order of the times with the century left out. -/
theorem clave_lt_iff {tm tm' : Tm} (h : tm.InRange) (h' : tm'.InRange) :
    tm.clave < tm'.clave ↔ tm.number % 10 ^ 12 < tm'.number % 10 ^ 12 := by
  obtain ⟨hmon, hmday, hhour, hmin, hsec⟩ := h
  obtain ⟨hmon', hmday', hhour', hmin', hsec'⟩ := h'
  have hyear : (tm.year % 100).toNat < 100 := by omega
  have hyear' : (tm'.year % 100).toNat < 100 := by omega
  have hnil : ¬ ([] : Bytes) < [] := List.lt_irrefl _
  have hirrefl : ∀ c : UInt8, ¬ c < c := fun c => UInt8.lt_irrefl c
  rw [clave_eq, clave_eq, twoDigits_append_lt_iff hyear hyear']
  simp only [List.cons_lt_cons_iff, hirrefl, false_or, true_and,
    twoDigits_append_lt_iff hmon hmon', twoDigits_append_lt_iff hmday hmday',
    twoDigits_append_lt_iff hhour hhour', twoDigits_append_lt_iff hmin hmin',
    twoDigits_append_lt_iff hsec hsec', hnil, and_false, or_false]
  simp only [Tm.number, Date.number, Tm.date]
  omega

/-! ### The turn of the century -/

/-- The first time is before the year 2000 and the second is not, and less than 100 years lie
between them. -/
def CenturyTurn (tm tm' : Tm) : Prop :=
  tm.year < 2000 ∧ 2000 ≤ tm'.year ∧ tm'.number < tm.number + 100 * 10 ^ 10

/-- A year of the 20th or the 21st century. -/
def Tm.InCenturies (tm : Tm) : Prop :=
  1900 ≤ tm.year ∧ tm.year ≤ 2099

theorem number_bounds {tm : Tm} (h : tm.InRange) :
    tm.year * 10 ^ 10 ≤ tm.number ∧ tm.number < (tm.year + 1) * 10 ^ 10 := by
  obtain ⟨hmon, hmday, hhour, hmin, hsec⟩ := h
  simp only [Tm.number, Date.number, Tm.date]
  omega

/-- Of two times the later one has the earlier key exactly when the century turns. -/
theorem clave_lt_iff_centuryTurn {tm tm' : Tm} (h : tm.InRange) (h' : tm'.InRange)
    (hyear : tm.InCenturies) (hyear' : tm'.InCenturies) (hle : tm.number ≤ tm'.number) :
    tm'.clave < tm.clave ↔ CenturyTurn tm tm' := by
  have hbounds := number_bounds h
  have hbounds' := number_bounds h'
  obtain ⟨hlo, hhi⟩ := hyear
  obtain ⟨hlo', hhi'⟩ := hyear'
  rw [clave_lt_iff h' h, CenturyTurn]
  generalize tm.number = n at *
  generalize tm'.number = n' at *
  omega

/-! ### The arrays -/

/-- `strftime` into an array of `size` bytes; `none` if the text and its NUL do not fit, when
it returns 0. -/
def strftimeInto (tm : Tm) (format : Bytes) (size : ℕ) : Option Bytes :=
  if (strftime tm format).length < size then some (strftime tm format) else none

/-- `clave_min`. -/
def clave_min (tm : Tm) : Option Bytes :=
  strftimeInto tm (ascii "%y-%m-%d_%H-%M-%S") 20

/-- `path_put`. -/
def path_put (clave_min : Bytes) : Bytes :=
  snprintf (ascii "/historial_mediciones/" ++ clave_min) 64

theorem length_clave (tm : Tm) : tm.clave.length = 17 := by
  rw [clave_eq]
  simp [twoDigits]

/-- The key and its path are written in full. -/
structure Tm.KeyFits (tm : Tm) : Prop where
  clave : clave_min tm = some tm.clave
  path : path_put tm.clave = ascii "/historial_mediciones/" ++ tm.clave

theorem keyFits (tm : Tm) : tm.KeyFits where
  clave := by
    have hfits : (strftime tm (ascii "%y-%m-%d_%H-%M-%S")).length < 20 := by
      rw [← Tm.clave, length_clave]
      omega
    rw [clave_min, strftimeInto, if_pos hfits]
    rfl
  path := by
    refine List.take_of_length_le ?_
    rw [List.length_append, length_clave]
    decide

/-- `1609459200`, which `init_sntp_and_time` waits for, is in the evening of the last day of
2020 in local time. -/
theorem year_of_synchronised {epoch : Int} (h : 1609459200 < epoch) :
    2020 ≤ (localtime_r UTC6 epoch).year := by
  have hbound : (localtime_r UTC6 1609459200).year = 2020 := by decide +kernel
  have hnumber := localtime_number_lt UTC6 h
  have hbounds := number_bounds (localtime_inRange 1609459200)
  have hbounds' := number_bounds (localtime_inRange epoch)
  omega

/-- **Key order is time order.** For all times that a synchronised clock shows before the
local year 2100: the keys are in the order of the times, and each key and its path are
written in full. -/
theorem clave_lt_iff_epoch_lt {t₁ t₂ : Int} (h₁ : 1609459200 < t₁) (h₂ : 1609459200 < t₂)
    (hyear₁ : (localtime_r UTC6 t₁).year < 2100) (hyear₂ : (localtime_r UTC6 t₂).year < 2100) :
    (t₁ < t₂ ↔ (localtime_r UTC6 t₁).clave < (localtime_r UTC6 t₂).clave) ∧
      (localtime_r UTC6 t₁).KeyFits ∧ (localtime_r UTC6 t₂).KeyFits := by
  refine ⟨?_, keyFits _, keyFits _⟩
  have hrange₁ := localtime_inRange t₁
  have hrange₂ := localtime_inRange t₂
  have hlo₁ := year_of_synchronised h₁
  have hlo₂ := year_of_synchronised h₂
  have hbounds₁ := number_bounds hrange₁
  have hbounds₂ := number_bounds hrange₂
  rw [clave_lt_iff hrange₁ hrange₂, ← localtime_number_lt_iff UTC6]
  -- both numbers begin with 20, so leaving the century out keeps their order
  omega

/-- Two keys at the end of the leap day of 2024. -/
theorem clave_lt_leap_day :
    (localtime_r UTC6 1709272799).clave = ascii "24-02-29_23-59-59" ∧
      (localtime_r UTC6 1709272800).clave = ascii "24-03-01_00-00-00" ∧
      (localtime_r UTC6 1709272799).clave < (localtime_r UTC6 1709272800).clave := by
  refine ⟨by decide +kernel, by decide +kernel, ?_⟩
  have hlow : (1609459200 : Int) < 1709272799 ∧ (1609459200 : Int) < 1709272800 := by omega
  have hiff := clave_lt_iff_epoch_lt hlow.1 hlow.2 (by decide +kernel) (by decide +kernel)
  exact hiff.1.mp (by omega)

/-! ### The clock -/

/-- The polls of `init_sntp_and_time` from number `i` on, with the number that are left: how
many of them find the clock before 2021. -/
def pollClock (clock : ℕ → Int64) : ℕ → ℕ → ℕ
  | 0, i => i
  | n + 1, i => if clock i > 1609459200 then i else pollClock clock n (i + 1)

/-- `init_sntp_and_time`: it gives up after 100 polls. -/
def init_sntp_and_time (clock : ℕ → Int64) : ℕ :=
  pollClock clock 100 0

theorem pollClock_lt {clock : ℕ → Int64} {n i : ℕ} (h : pollClock clock n i < i + n) :
    clock (pollClock clock n i) > 1609459200 := by
  induction n generalizing i with
  | zero => exact absurd h (by simp [pollClock])
  | succ n ih =>
      rw [pollClock] at h ⊢
      split
      · assumption
      · rename_i hclock
        rw [if_neg hclock] at h
        exact ih (by omega)

/-- The clock during a run: it does not go back, and it shows a time from the epoch to the
end of 2099. -/
structure Clocked (ticks : List Tick) : Prop where
  forward : ticks.Pairwise fun t t' => t.now_epoch.toInt ≤ t'.now_epoch.toInt
  epoch : ∀ t ∈ ticks, 0 ≤ t.now_epoch.toInt
  century : ∀ t ∈ ticks, (localtime_r UTC6 t.now_epoch.toInt).year ≤ 2099

theorem Clocked.left {ticks ticks' : List Tick} (h : Clocked (ticks ++ ticks')) : Clocked ticks :=
  ⟨(List.pairwise_append.mp h.forward).1, fun t ht => h.epoch t (List.mem_append_left _ ht),
    fun t ht => h.century t (List.mem_append_left _ ht)⟩

/-- Local times from the epoch on. -/
theorem localtime_year_ge {start epoch : Int} (h : start ≤ epoch) :
    (localtime_r UTC6 start).year ≤ (localtime_r UTC6 epoch).year := by
  have hle := localtime_number_le UTC6 h
  have hbounds := number_bounds (localtime_inRange start)
  have hbounds' := number_bounds (localtime_inRange epoch)
  omega

theorem Clocked.inCenturies {ticks : List Tick} (h : Clocked ticks) {t : Tick} (ht : t ∈ ticks) :
    (localtime_r UTC6 t.now_epoch.toInt).InCenturies := by
  have hstart : (localtime_r UTC6 0).year = 1969 := by decide
  have hyear := localtime_year_ge (h.epoch t ht)
  rw [hstart] at hyear
  exact ⟨by omega, h.century t ht⟩

/-! ### The records of a run -/

/-- The batches carry times of the clock, in the order in which they were sent. -/
structure Stamped (ticks : List Tick) (history : List Batch) : Prop where
  times : ∀ b ∈ history, ∃ t ∈ ticks, b.record.tm = localtime_r UTC6 t.now_epoch.toInt
  forward : history.Pairwise fun b b' => b.record.tm.number ≤ b'.record.tm.number

theorem stamped_run (c : Setting) (db : Store Bytes Bytes) (now_us : Int) {ticks : List Tick}
    (h : Clocked ticks) : Stamped ticks ((Task.start db now_us).run c ticks).history := by
  refine ⟨batch_times c db now_us ticks, ?_⟩
  induction ticks using List.reverseRecOn with
  | nil => exact List.Pairwise.nil
  | append_singleton ticks t ih =>
      have hforward := ih h.left
      rw [Task.run_snoc]
      rcases ((Task.start db now_us).run c ticks).step_cases c t with hquiet | ⟨s₁, hquiet, hsend⟩
      · rw [hquiet.history]
        exact hforward
      · have hhistory : (s₁.send c t).history = s₁.history ++ [s₁.batch c t] := rfl
        have hlast : (s₁.batch c t).record.tm = localtime_r UTC6 t.now_epoch.toInt := rfl
        rw [hsend.history, hhistory, hquiet.history]
        refine List.pairwise_append.mpr ⟨hforward, List.pairwise_singleton _ _, ?_⟩
        intro b hb b' hb'
        obtain ⟨t', ht', htm⟩ := batch_times c db now_us ticks b hb
        rw [List.mem_singleton.mp hb', htm, hlast]
        exact localtime_number_le UTC6
          ((List.pairwise_append.mp h.forward).2.2 t' ht' t (List.mem_singleton_self t))

/-- **Oldest first.** The records that have reached the database are in key order in the
order in which they were sent, and whenever one of them is still stored, so are all that
were sent after it. -/
structure OldestFirst (s : Task) : Prop where
  keys : (reached s.history).Pairwise fun r r' => ¬ r'.tm.clave < r.tm.clave
  trims : (reached s.history).Pairwise fun r r' =>
    r.tm.clave ∈ s.db.keys → r'.tm.clave ∈ s.db.keys

/-- A property of every two batches is one of every two records that have reached the
database. -/
theorem pairwise_reached {P : Record → Record → Prop} {history : List Batch}
    (h : history.Pairwise fun b b' => P b.record b'.record) : (reached history).Pairwise P := by
  rw [reached, List.pairwise_map]
  exact h.sublist List.filter_sublist

/-- The keys are in order exactly when the century does not turn. -/
theorem keys_iff {ticks : List Tick} {history : List Batch} (hclock : Clocked ticks)
    (h : Stamped ticks history) :
    ((reached history).Pairwise fun r r' => ¬ r'.tm.clave < r.tm.clave) ↔
      (reached history).Pairwise fun r r' => ¬ CenturyTurn r.tm r'.tm := by
  have hpair : (reached history).Pairwise fun r r' =>
      (¬ r'.tm.clave < r.tm.clave ↔ ¬ CenturyTurn r.tm r'.tm) := by
    refine pairwise_reached (List.Pairwise.imp_of_mem (fun hb hb' hle => ?_) h.forward)
    obtain ⟨t, ht, htm⟩ := h.times _ hb
    obtain ⟨t', ht', htm'⟩ := h.times _ hb'
    rw [htm, htm'] at hle ⊢
    exact not_congr (clave_lt_iff_centuryTurn (localtime_inRange _) (localtime_inRange _)
      (hclock.inCenturies ht) (hclock.inCenturies ht') hle)
  constructor
  · exact fun h => (h.and hpair).imp fun ⟨hk, hiff⟩ => hiff.mp hk
  · exact fun h => (h.and hpair).imp fun ⟨hk, hiff⟩ => hiff.mpr hk

/-! ### Trims -/

/-- A `PUT` stores its record, and keeps the records sent after any record that is stored. -/
theorem trims_put {c : Setting} {s : Task} (t : Tick)
    (hkeys : (reached (s.history ++ [s.batch c t])).Pairwise fun r r' => ¬ r'.tm.clave < r.tm.clave)
    (h : (reached s.history).Pairwise fun r r' =>
      r.tm.clave ∈ s.db.keys → r'.tm.clave ∈ s.db.keys) :
    (reached (s.history ++ [s.batch c t])).Pairwise fun r r' =>
      r.tm.clave ∈ (s.dbAfterPut c t).keys → r'.tm.clave ∈ (s.dbAfterPut c t).keys := by
  rw [reached_snoc] at hkeys ⊢
  have hreached : (s.batch c t).reached = t.put.any Fate.applies := rfl
  cases hput : t.put.any Fate.applies with
  | false =>
      have hdb : s.dbAfterPut c t = s.db := by simp [Task.dbAfterPut, hput]
      rw [hreached, hput, hdb]
      simpa using h
  | true =>
      have hdb : ∀ k, k ∈ (s.dbAfterPut c t).keys ↔
          k = (s.batch c t).record.tm.clave ∨ k ∈ s.db.keys := by
        intro k
        simp only [Task.dbAfterPut, hput, if_true]
        exact mem_keys_put _ _ _ _
      rw [hreached, hput] at hkeys ⊢
      simp only [if_true] at hkeys ⊢
      obtain ⟨hold, -, hnew⟩ := List.pairwise_append.mp hkeys
      refine List.pairwise_append.mpr ⟨?_, List.pairwise_singleton _ _, ?_⟩
      · refine (List.Pairwise.and h hold).imp_of_mem fun {r r'} hr hr' hpair hmem => ?_
        obtain ⟨htrims, hlt⟩ := hpair
        rw [hdb] at hmem ⊢
        rcases hmem with heq | hmem
        · -- a record with the key of the new one: those in between have this key as well
          have hlast := hnew r' hr' _ (List.mem_singleton_self _)
          rw [heq] at hlt
          rcases Std.lt_trichotomy r'.tm.clave (s.batch c t).record.tm.clave with hl | he | hg
          · exact absurd hl hlt
          · exact Or.inl he
          · exact absurd hg hlast
        · exact Or.inr (htrims hmem)
      · intro r _ r' hr' _
        rw [List.mem_singleton.mp hr', hdb]
        exact Or.inl rfl

/-- So does the trim behind it. -/
theorem trims_send {c : Setting} {s : Task} (t : Tick)
    (hkeys : (reached (s.send c t).history).Pairwise fun r r' => ¬ r'.tm.clave < r.tm.clave)
    (h : (reached s.history).Pairwise fun r r' =>
      r.tm.clave ∈ s.db.keys → r'.tm.clave ∈ s.db.keys) :
    (reached (s.send c t).history).Pairwise fun r r' =>
      r.tm.clave ∈ (s.send c t).db.keys → r'.tm.clave ∈ (s.send c t).db.keys := by
  have hhistory : (s.send c t).history = s.history ++ [s.batch c t] := rfl
  rw [hhistory] at hkeys ⊢
  have hput := trims_put t hkeys h
  cases htrim : (s.batch c t).trim with
  | none =>
      have hdb : (s.send c t).db = s.dbAfterPut c t := by simp only [Task.send, htrim]
      rwa [hdb]
  | some trim =>
      have hdb : (s.send c t).db = (s.dbAfterPut c t).dropFirst trim.removed := by
        simp only [Task.send, htrim]
      rw [hdb]
      refine (List.Pairwise.and hput hkeys).imp fun hpair hmem => ?_
      have hstored : ∀ {k : Bytes}, k ∈ ((s.dbAfterPut c t).dropFirst trim.removed).keys →
          k ∈ (s.dbAfterPut c t).keys := by
        intro k hk
        rw [keys_dropFirst] at hk
        exact List.mem_of_mem_drop hk
      exact mem_keys_dropFirst_of_not_lt hmem (hpair.1 (hstored hmem)) hpair.2

theorem trims_run (c : Setting) (db : Store Bytes Bytes) (now_us : Int) {ticks : List Tick}
    (hkeys : (reached ((Task.start db now_us).run c ticks).history).Pairwise
      fun r r' => ¬ r'.tm.clave < r.tm.clave) :
    (reached ((Task.start db now_us).run c ticks).history).Pairwise fun r r' =>
      r.tm.clave ∈ ((Task.start db now_us).run c ticks).db.keys →
        r'.tm.clave ∈ ((Task.start db now_us).run c ticks).db.keys := by
  induction ticks using List.reverseRecOn with
  | nil => exact List.Pairwise.nil
  | append_singleton ticks t ih =>
      rw [Task.run_snoc] at hkeys ⊢
      rcases ((Task.start db now_us).run c ticks).step_cases c t with hquiet | ⟨s₁, hquiet, hsend⟩
      · rw [hquiet.history] at hkeys ⊢
        rw [hquiet.db]
        exact ih hkeys
      · rw [hsend.history] at hkeys ⊢
        rw [hsend.db]
        have hbefore : (reached s₁.history).Pairwise fun r r' => ¬ r'.tm.clave < r.tm.clave := by
          have hhistory : (s₁.send c t).history = s₁.history ++ [s₁.batch c t] := rfl
          rw [hhistory, reached_snoc] at hkeys
          exact (List.pairwise_append.mp hkeys).1
        rw [hquiet.history] at hbefore
        have hold := ih hbefore
        rw [← hquiet.history, ← hquiet.db] at hold
        exact trims_send t hkeys hold

/-- **Key order and sending order.** In every run in which the clock does not go back and
stays between the epoch and the end of 2099, the records are in key order and trims have
removed those sent first, exactly when the century does not turn between two of them. -/
theorem key_order_iff (c : Setting) (db : Store Bytes Bytes) (now_us : Int) {ticks : List Tick}
    (hclock : Clocked ticks) :
    OldestFirst ((Task.start db now_us).run c ticks) ↔
      (reached ((Task.start db now_us).run c ticks).history).Pairwise
        fun r r' => ¬ CenturyTurn r.tm r'.tm := by
  have hiff := keys_iff hclock (stamped_run c db now_us hclock)
  rw [← hiff]
  exact ⟨fun h => h.keys, fun h => ⟨h, trims_run c db now_us h⟩⟩

/-- A station in some city. -/
def someSetting : Setting :=
  ⟨.exact, .of (ascii "city"), .of (ascii "id"), ascii "00:00:00"⟩

/-- Two batches at the given times, both of which reach the database. -/
def twoBatches (first second : Int64) : List Tick :=
  List.replicate 5 { putTick .applied with now_epoch := first }
    ++ List.replicate 5 { putTick .applied with now_epoch := second }

theorem clocked_twoBatches {first second : Int64} (hfirst : 0 ≤ first.toInt)
    (hle : first.toInt ≤ second.toInt) (hyear : (localtime_r UTC6 second.toInt).year ≤ 2099) :
    Clocked (twoBatches first second) := by
  have hepoch : ∀ t ∈ twoBatches first second,
      t.now_epoch.toInt = first.toInt ∨ t.now_epoch.toInt = second.toInt := by
    intro t ht
    rcases List.mem_append.mp ht with ht | ht
    · exact Or.inl (by rw [List.eq_of_mem_replicate ht])
    · exact Or.inr (by rw [List.eq_of_mem_replicate ht])
  refine ⟨?_, fun t ht => ?_, fun t ht => ?_⟩
  · refine List.pairwise_append.mpr ⟨?_, ?_, fun t ht t' ht' => ?_⟩
    · exact List.pairwise_replicate.mpr (Or.inr le_rfl)
    · exact List.pairwise_replicate.mpr (Or.inr le_rfl)
    · rw [List.eq_of_mem_replicate ht, List.eq_of_mem_replicate ht']
      exact hle
  · rcases hepoch t ht with h | h <;> omega
  · have hmono := localtime_year_ge hle
    rcases hepoch t ht with h | h <;> rw [h] <;> omega

/-- Two batches that are sent five minutes apart. -/
theorem key_order_five_minutes :
    Clocked (twoBatches 1758000000 1758000300) ∧
      OldestFirst ((Task.start ⟨[], List.Pairwise.nil⟩ 0).run someSetting
        (twoBatches 1758000000 1758000300)) := by
  have hclock : Clocked (twoBatches 1758000000 1758000300) :=
    clocked_twoBatches (by decide) (by decide) (by decide)
  refine ⟨hclock, (key_order_iff _ _ _ hclock).mpr ?_⟩
  have htimes : (reached ((Task.start ⟨[], List.Pairwise.nil⟩ 0).run someSetting
      (twoBatches 1758000000 1758000300)).history).map Record.tm
        = [⟨2025, 9, 15, 23, 20, 0⟩, ⟨2025, 9, 15, 23, 25, 0⟩] := by decide +kernel
  refine (List.pairwise_map (f := Record.tm) (R := fun tm tm' => ¬ CenturyTurn tm tm')).mp ?_
  rw [htimes]
  simp [CenturyTurn]

/-- A run that starts with a synchronised clock is in order. -/
theorem synchronised_in_order (c : Setting) (db : Store Bytes Bytes) (now_us : Int)
    {clock : ℕ → Int64} {ticks : List Tick} (hsync : init_sntp_and_time clock < 100)
    (hclock : Clocked ticks)
    (hlater : ∀ t ∈ ticks, (clock (init_sntp_and_time clock)).toInt ≤ t.now_epoch.toInt) :
    OldestFirst ((Task.start db now_us).run c ticks) := by
  have hstamped := stamped_run c db now_us hclock
  have hpoll : (1609459200 : Int64).toInt < (clock (init_sntp_and_time clock)).toInt :=
    Int64.lt_iff_toInt_lt.mp (pollClock_lt hsync)
  have hyear : (localtime_r UTC6 (1609459200 : Int64).toInt).year = 2020 := by decide +kernel
  have hkeys := (keys_iff hclock hstamped).mpr
    (pairwise_reached (hstamped.forward.imp_of_mem fun {b b'} hb _ _ hturn => ?_))
  · exact ⟨hkeys, trims_run c db now_us hkeys⟩
  · obtain ⟨t, ht, htm⟩ := hstamped.times b hb
    have hle := localtime_year_ge (hpoll.le.trans (hlater t ht))
    have hturn' := hturn.1
    rw [htm] at hturn'
    omega

/-- **Out of order.** If the clock is synchronised between the first two batches, the first
one has the later key. -/
theorem unsynchronised_out_of_order :
    init_sntp_and_time (fun _ => 5) = 100 ∧ Clocked (twoBatches 10 1758000000) ∧
      ¬ OldestFirst ((Task.start ⟨[], List.Pairwise.nil⟩ 0).run someSetting
        (twoBatches 10 1758000000)) := by
  refine ⟨by decide +kernel, clocked_twoBatches (by decide) (by decide) (by decide), fun h => ?_⟩
  have hkeys := (List.pairwise_map (f := fun r : Record => r.tm.clave)
    (R := fun k k' => ¬ k' < k)).mpr h.keys
  have hclaves : (reached ((Task.start ⟨[], List.Pairwise.nil⟩ 0).run someSetting
      (twoBatches 10 1758000000)).history).map (fun r => r.tm.clave)
        = [ascii "69-12-31_18-00-10", ascii "25-09-15_23-20-00"] := by decide +kernel
  rw [hclaves] at hkeys
  have hlast := (List.pairwise_cons.mp hkeys).1 _ (List.mem_singleton_self _)
  exact hlast (by decide)

end PppAmb
