import Mathlib.Algebra.Ring.Int.Defs
import Mathlib.Tactic.Ring
import PppAmb.CString

/-!
# Calendar Time in the Manner of the C Library

`localtime_r` for a zone with a fixed offset, and `strftime` with the conversions that
print numbers. Days are counted from 1970-01-01 in the proleptic Gregorian calendar.

## Main results

* `twoDigits_inj`, `ascii_toString_inj`: a printed number tells the number.
* `civil_month_range`, `civil_day_range`, `civil_year_range`: the ranges of a date.
* `localtime_number_lt_iff`: the local time tells the order of two times.
-/

namespace PppAmb

/-- `struct tm`, with the year in full and months from 1. -/
structure Tm where
  year : Int
  mon : ℕ
  mday : ℕ
  hour : ℕ
  min : ℕ
  sec : ℕ
  deriving DecidableEq, Repr

/-- A date. -/
structure Date where
  year : Int
  mon : ℕ
  mday : ℕ
  deriving DecidableEq, Repr

/-- The date of a day. The year is taken to start in March, so that the leap day is its
last day. A day is counted down through eras of 400 years, centuries, spans of four years
and years, each of which is regular but for its last part. -/
def civil (days : Int) : Date :=
  let z := days + 719468
  let era := z / 146097
  let doe := (z % 146097).toNat
  let century := min (doe / 36524) 3
  let doc := doe - 36524 * century
  let four := doc / 1461
  let year := min (doc % 1461 / 365) 3
  let doy := doc % 1461 - 365 * year
  let mp := (5 * doy + 2) / 153
  let mday := doy - (153 * mp + 2) / 5 + 1
  let mon := if mp < 10 then mp + 3 else mp - 9
  ⟨400 * era + 100 * century + 4 * four + year + (if mon ≤ 2 then 1 else 0), mon, mday⟩

/-- `localtime_r` in a zone that is the given number of seconds west of UTC. -/
def localtime_r (west epoch : Int) : Tm :=
  let t := epoch - west
  let date := civil (t / 86400)
  let s := (t % 86400).toNat
  ⟨date.year, date.mon, date.mday, s / 3600, s / 60 % 60, s % 60⟩

/-- The date of a broken-down time. -/
def Tm.date (tm : Tm) : Date :=
  ⟨tm.year, tm.mon, tm.mday⟩

/-- A decimal digit. -/
def digit (n : ℕ) : UInt8 :=
  UInt8.ofNat (48 + n % 10)

/-- A number in two digits. -/
def twoDigits (n : ℕ) : Bytes :=
  [digit (n / 10), digit n]

/-- What one conversion of `strftime` prints. -/
def conversion (tm : Tm) (c : UInt8) : Bytes :=
  if c = ch 'd' then twoDigits tm.mday
  else if c = ch 'm' then twoDigits tm.mon
  else if c = ch 'Y' then ascii (toString tm.year)
  else if c = ch 'y' then twoDigits (tm.year % 100).toNat
  else if c = ch 'H' then twoDigits tm.hour
  else if c = ch 'M' then twoDigits tm.min
  else if c = ch 'S' then twoDigits tm.sec
  else []

/-- `strftime`. -/
def strftime (tm : Tm) : Bytes → Bytes
  | [] => []
  | [c] => [c]
  | c :: d :: format =>
      if c = ch '%' then conversion tm d ++ strftime tm format else c :: strftime tm (d :: format)

example : strftime (localtime_r 21600 1758000000) (ascii "%d-%m-%Y %H:%M:%S")
    = ascii "15-09-2025 23:20:00" := by
  decide

/-! ### Ranges -/

theorem digit_inj {m n : ℕ} (h : digit m = digit n) : m % 10 = n % 10 := by
  have hnat := congrArg UInt8.toNat h
  simp only [digit, UInt8.toNat_ofNat'] at hnat
  omega

/-- Two digits tell the number. -/
theorem twoDigits_inj {m n : ℕ} (hm : m < 100) (hn : n < 100)
    (h : twoDigits m = twoDigits n) : m = n := by
  simp only [twoDigits, List.cons.injEq, and_true] at h
  have htens := digit_inj h.1
  have hones := digit_inj h.2
  omega

/-- A year has at most 366 days. -/
theorem dayOfYear_le (doc : ℕ) : doc % 1461 - 365 * min (doc % 1461 / 365) 3 ≤ 365 := by
  omega

theorem civil_month_range (days : Int) : 1 ≤ (civil days).mon ∧ (civil days).mon ≤ 12 := by
  simp only [civil]
  generalize ((days + 719468) % 146097).toNat = doe
  have hdoy := dayOfYear_le (doe - 36524 * min (doe / 36524) 3)
  generalize (doe - 36524 * min (doe / 36524) 3) % 1461 - _ = doy at hdoy ⊢
  split <;> omega

theorem civil_day_range (days : Int) : 1 ≤ (civil days).mday ∧ (civil days).mday ≤ 31 := by
  simp only [civil]
  generalize ((days + 719468) % 146097).toNat = doe
  have hdoy := dayOfYear_le (doe - 36524 * min (doe / 36524) 3)
  generalize (doe - 36524 * min (doe / 36524) 3) % 1461 - _ = doy at hdoy ⊢
  omega

/-- A date is in the era its day is in, or on the first day of the next. -/
theorem civil_year_range (days : Int) :
    400 * ((days + 719468) / 146097) ≤ (civil days).year ∧
      (civil days).year ≤ 400 * ((days + 719468) / 146097) + 400 := by
  have hdoe : ((days + 719468) % 146097).toNat < 146097 := by omega
  simp only [civil]
  generalize ((days + 719468) % 146097).toNat = doe at hdoe ⊢
  generalize (days + 719468) / 146097 = era
  have hfour : (doe - 36524 * min (doe / 36524) 3) / 1461 ≤ 24 := by omega
  generalize (doe - 36524 * min (doe / 36524) 3) / 1461 = four at hfour ⊢
  generalize (doe - 36524 * min (doe / 36524) 3) % 1461 = doq
  split <;> push_cast <;> omega

/-! ### The order of times -/

/-- The year of a day, taken to start in March. -/
def marchYear (days : Int) : Int :=
  let z := days + 719468
  let doe := (z % 146097).toNat
  let century := min (doe / 36524) 3
  let doc := doe - 36524 * century
  let four := doc / 1461
  let year := min (doc % 1461 / 365) 3
  400 * (z / 146097) + 100 * century + 4 * four + year

/-- The number of a day in the year that starts in March. -/
def marchDay (days : Int) : ℕ :=
  let doe := ((days + 719468) % 146097).toNat
  let doc := doe - 36524 * min (doe / 36524) 3
  doc % 1461 - 365 * min (doc % 1461 / 365) 3

/-- A day of the year that starts in March as the number `MMDD`, with 10000 added in January
and February. -/
def monthDay (doy : ℕ) : ℕ :=
  let mp := (5 * doy + 2) / 153
  (mp + 3) * 100 + (doy - (153 * mp + 2) / 5 + 1) + if mp < 10 then 0 else 8800

/-- The date as the number `YYYYMMDD`. -/
def Date.number (d : Date) : Int :=
  d.year * 10000 + d.mon * 100 + d.mday

/-- The date in terms of the year that starts in March. -/
theorem civil_number (days : Int) :
    (civil days).number = marchYear days * 10000 + monthDay (marchDay days) := by
  have hdoy : marchDay days ≤ 365 := dayOfYear_le _
  have hcivil : civil days =
      let mp := (5 * marchDay days + 2) / 153
      let mon := if mp < 10 then mp + 3 else mp - 9
      ⟨marchYear days + (if mon ≤ 2 then 1 else 0), mon,
        marchDay days - (153 * mp + 2) / 5 + 1⟩ := rfl
  rw [hcivil]
  generalize marchDay days = doy at hdoy ⊢
  generalize marchYear days = year
  simp only [Date.number, monthDay]
  have hmp : (5 * doy + 2) / 153 ≤ 11 := by omega
  split
  · rw [if_neg (by omega)]
    push_cast
    ring
  · rw [if_pos (by omega)]
    omega

theorem monthDay_range {n : ℕ} (hn : n ≤ 365) : 301 ≤ monthDay n ∧ monthDay n ≤ 10231 := by
  have hmp : (5 * n + 2) / 153 ≤ 11 := by omega
  have hmday : n - (153 * ((5 * n + 2) / 153) + 2) / 5 ≤ 30 := by omega
  simp only [monthDay]
  split <;> omega

theorem monthDay_lt {m n : ℕ} (h : m < n) : monthDay m < monthDay n := by
  have hmday : m - (153 * ((5 * m + 2) / 153) + 2) / 5 ≤ 30 := by omega
  have hstart : (153 * ((5 * n + 2) / 153) + 2) / 5 ≤ n := by omega
  have hmp : (5 * m + 2) / 153 ≤ (5 * n + 2) / 153 := by omega
  simp only [monthDay]
  rcases Nat.lt_or_eq_of_le hmp with hlt | heq
  · split <;> split <;> omega
  · rw [heq] at hmday ⊢
    split <;> omega

/-- Counting down through parts of one length, but for the last one: the number of the part
goes up, or it stays and the rest goes up. -/
theorem part_lt {m n : ℕ} (size last : ℕ) (h : m < n) :
    min (m / size) last < min (n / size) last ∨
      (min (m / size) last = min (n / size) last ∧
        m - size * min (m / size) last < n - size * min (n / size) last) := by
  have hdiv : m / size ≤ n / size := Nat.div_le_div_right h.le
  have hm : size * (m / size) ≤ m := Nat.mul_div_le m size
  have hn : size * (n / size) ≤ n := Nat.mul_div_le n size
  rcases Nat.lt_or_ge (min (m / size) last) (min (n / size) last) with hlt | hge
  · exact Or.inl hlt
  · have heq : min (m / size) last = min (n / size) last := by omega
    refine Or.inr ⟨heq, ?_⟩
    rw [← heq]
    have hle : size * min (m / size) last ≤ m :=
      (Nat.mul_le_mul_left size (Nat.min_le_left _ _)).trans hm
    omega

/-- A later day is in a later year, or later in the same year. -/
theorem marchYear_lt {d d' : Int} (h : d < d') :
    marchYear d < marchYear d' ∨ (marchYear d = marchYear d' ∧ marchDay d < marchDay d') := by
  simp only [marchYear, marchDay]
  have hera : (d + 719468) / 146097 < (d' + 719468) / 146097 ∨
      ((d + 719468) / 146097 = (d' + 719468) / 146097 ∧
        ((d + 719468) % 146097).toNat < ((d' + 719468) % 146097).toNat) := by omega
  have hdoe : ((d + 719468) % 146097).toNat < 146097 := by omega
  have hdoe' : ((d' + 719468) % 146097).toNat < 146097 := by omega
  generalize ((d + 719468) % 146097).toNat = doe at *
  generalize ((d' + 719468) % 146097).toNat = doe' at *
  generalize (d + 719468) / 146097 = era at *
  generalize (d' + 719468) / 146097 = era' at *
  have hcentury : doe < doe' → _ := part_lt 36524 3 (m := doe) (n := doe')
  have hfour : (doe - 36524 * min (doe / 36524) 3) / 1461 ≤ 24 := by omega
  have hfour' : (doe' - 36524 * min (doe' / 36524) 3) / 1461 ≤ 24 := by omega
  have hc : min (doe / 36524) 3 ≤ 3 := by omega
  have hc' : min (doe' / 36524) 3 ≤ 3 := by omega
  generalize min (doe / 36524) 3 = century at *
  generalize min (doe' / 36524) 3 = century' at *
  generalize doe - 36524 * century = doc at *
  generalize doe' - 36524 * century' = doc' at *
  have hspan : doc < doc' → doc / 1461 < doc' / 1461 ∨
      (doc / 1461 = doc' / 1461 ∧ doc % 1461 < doc' % 1461) := by omega
  have hyear : doc % 1461 < doc' % 1461 → _ :=
    part_lt 365 3 (m := doc % 1461) (n := doc' % 1461)
  have hy : min (doc % 1461 / 365) 3 ≤ 3 := by omega
  have hy' : min (doc' % 1461 / 365) 3 ≤ 3 := by omega
  generalize min (doc % 1461 / 365) 3 = year at *
  generalize min (doc' % 1461 / 365) 3 = year' at *
  generalize doc % 1461 - 365 * year = doy at *
  generalize doc' % 1461 - 365 * year' = doy' at *
  generalize doc % 1461 = doq at *
  generalize doc' % 1461 = doq' at *
  generalize doc / 1461 = four at *
  generalize doc' / 1461 = four' at *
  omega
/-- A later day has a later date. -/
theorem civil_number_lt {d d' : Int} (h : d < d') : (civil d).number < (civil d').number := by
  have hday : marchDay d ≤ 365 := dayOfYear_le _
  have hday' : marchDay d' ≤ 365 := dayOfYear_le _
  have hrange := monthDay_range hday
  have hrange' := monthDay_range hday'
  rw [civil_number, civil_number]
  rcases marchYear_lt h with hyear | ⟨hyear, hlt⟩
  · omega
  · have hmonthDay := monthDay_lt hlt
    omega

/-- The time as the number `YYYYMMDDhhmmss`. -/
def Tm.number (tm : Tm) : Int :=
  tm.date.number * 1000000 + tm.hour * 10000 + tm.min * 100 + tm.sec

theorem clock_number_lt {s s' : ℕ} (h : s < s') :
    s / 3600 * 10000 + s / 60 % 60 * 100 + s % 60
      < s' / 3600 * 10000 + s' / 60 % 60 * 100 + s' % 60 := by
  have hhour : s / 3600 = s / 60 / 60 := (Nat.div_div_eq_div_mul s 60 60).symm
  have hhour' : s' / 3600 = s' / 60 / 60 := (Nat.div_div_eq_div_mul s' 60 60).symm
  have hmin : s / 60 < s' / 60 ∨ (s / 60 = s' / 60 ∧ s % 60 < s' % 60) := by omega
  rw [hhour, hhour']
  rcases hmin with hlt | ⟨heq, hsec⟩
  · have hhours : s / 60 / 60 < s' / 60 / 60 ∨
        (s / 60 / 60 = s' / 60 / 60 ∧ s / 60 % 60 < s' / 60 % 60) := by omega
    omega
  · rw [heq]
    omega

/-- A later time is later on the local clock. -/
theorem localtime_number_lt (west : Int) {epoch epoch' : Int} (h : epoch < epoch') :
    (localtime_r west epoch).number < (localtime_r west epoch').number := by
  simp only [Tm.number, Tm.date, localtime_r]
  have hs : ((epoch - west) % 86400).toNat < 86400 := by omega
  have hs' : ((epoch' - west) % 86400).toNat < 86400 := by omega
  have hday : (epoch - west) / 86400 < (epoch' - west) / 86400 ∨
      ((epoch - west) / 86400 = (epoch' - west) / 86400 ∧
        ((epoch - west) % 86400).toNat < ((epoch' - west) % 86400).toNat) := by omega
  generalize ((epoch - west) % 86400).toNat = s at *
  generalize ((epoch' - west) % 86400).toNat = s' at *
  rcases hday with hday | ⟨hday, hlt⟩
  · have hdate := civil_number_lt hday
    change (civil _).number * 1000000 + _ + _ + _ < (civil _).number * 1000000 + _ + _ + _
    omega
  · have hclock := clock_number_lt hlt
    rw [hday]
    push_cast at hclock ⊢
    omega

/-- A clock that does not go back does not turn the local time back. -/
theorem localtime_number_le (west : Int) {epoch epoch' : Int} (h : epoch ≤ epoch') :
    (localtime_r west epoch).number ≤ (localtime_r west epoch').number := by
  rcases h.lt_or_eq with hlt | rfl
  · exact (localtime_number_lt west hlt).le
  · exact le_rfl

/-- The local clock tells the order of two times. -/
theorem localtime_number_lt_iff (west : Int) {epoch epoch' : Int} :
    (localtime_r west epoch).number < (localtime_r west epoch').number ↔ epoch < epoch' := by
  refine ⟨fun h => ?_, localtime_number_lt west⟩
  by_contra hge
  have hle := localtime_number_le west (not_lt.mp hge)
  omega

/-! ### Printed numbers -/

/-- ASCII characters are told apart by their bytes. -/
theorem ascii_inj {s t : String} (hs : ∀ c ∈ s.toList, c.toNat < 256)
    (ht : ∀ c ∈ t.toList, c.toNat < 256) (h : ascii s = ascii t) : s = t := by
  have hback : ∀ r : String, (∀ c ∈ r.toList, c.toNat < 256) →
      (ascii r).map (fun b => Char.ofNat b.toNat) = r.toList := by
    intro r hr
    rw [ascii, List.map_map]
    conv_rhs => rw [← List.map_id r.toList]
    refine List.map_congr_left fun c hc => ?_
    have hbyte : (UInt8.ofNat c.toNat).toNat = c.toNat := by
      rw [UInt8.toNat_ofNat', Nat.mod_eq_of_lt (hr c hc)]
    simp only [Function.comp_apply, id_eq, hbyte, Char.ofNat_toNat]
  have hlist := congrArg (fun l => l.map fun b => Char.ofNat b.toNat) h
  simp only [hback s hs, hback t ht] at hlist
  exact String.toList_inj.mp hlist

/-- The digits of a number tell the number. -/
theorem toDigits_inj {m n : ℕ} (h : Nat.toDigits 10 m = Nat.toDigits 10 n) : m = n := by
  have hvalue := congrArg (fun l => Nat.ofDigitChars 10 l 0) h
  simpa using hvalue

/-- The characters of a printed integer: a sign if it is negative, and digits. -/
theorem toList_toString (n : Int) :
    (toString n).toList = if 0 ≤ n then Nat.toDigits 10 n.toNat
      else '-' :: Nat.toDigits 10 (-n).toNat := by
  rw [Int.toString_eq_repr, Int.repr_eq_if]
  split <;> simp

theorem digit_of_mem_toDigits {n : ℕ} {c : Char} (h : c ∈ Nat.toDigits 10 n) :
    c ≠ '-' ∧ c.toNat < 256 := by
  have hdigit := Nat.isDigit_of_mem_toDigits (by omega) le_rfl h
  refine ⟨?_, ?_⟩
  · rintro rfl
    exact absurd hdigit (by decide)
  · simp only [Char.isDigit, Bool.and_eq_true, decide_eq_true_eq] at hdigit
    have hle : c.toNat ≤ 57 := hdigit.2
    omega

theorem toString_inj {m n : Int} (h : toString m = toString n) : m = n := by
  have hlist := congrArg String.toList h
  rw [toList_toString, toList_toString] at hlist
  have hsign : ∀ {k l : ℕ}, Nat.toDigits 10 k ≠ '-' :: Nat.toDigits 10 l := fun heq =>
    (digit_of_mem_toDigits (heq ▸ List.mem_cons_self)).1 rfl
  split at hlist
  · split at hlist
    · have := toDigits_inj hlist
      omega
    · exact absurd hlist hsign
  · split at hlist
    · exact absurd hlist.symm hsign
    · have := toDigits_inj (List.cons.inj hlist).2
      omega

/-- A printed integer tells the integer. -/
theorem ascii_toString_inj {m n : Int} (h : ascii (toString m) = ascii (toString n)) : m = n := by
  have hbytes : ∀ k : Int, ∀ c ∈ (toString k).toList, c.toNat < 256 := by
    intro k c hc
    rw [toList_toString] at hc
    split at hc
    · exact (digit_of_mem_toDigits hc).2
    · rcases List.mem_cons.mp hc with rfl | hc
      · decide
      · exact (digit_of_mem_toDigits hc).2
  exact toString_inj (ascii_inj (hbytes m) (hbytes n) h)

/-- The bytes of a printed integer: a sign or digits. -/
theorem mem_ascii_toString {n : Int} {b : UInt8} (h : b ∈ ascii (toString n)) :
    b = ch '-' ∨ 48 ≤ b.toNat ∧ b.toNat ≤ 57 := by
  have hdigits : ∀ m, ∀ c ∈ Nat.toDigits 10 m,
      48 ≤ (UInt8.ofNat c.toNat).toNat ∧ (UInt8.ofNat c.toNat).toNat ≤ 57 := by
    intro m c hc
    have hdigit := Nat.isDigit_of_mem_toDigits (by omega) le_rfl hc
    simp only [Char.isDigit, Bool.and_eq_true, decide_eq_true_eq] at hdigit
    have hlow : 48 ≤ c.toNat := hdigit.1
    have hhigh : c.toNat ≤ 57 := hdigit.2
    rw [UInt8.toNat_ofNat']
    omega
  obtain ⟨c, hc, rfl⟩ := List.mem_map.mp h
  rw [toList_toString] at hc
  split at hc
  · exact Or.inr (hdigits _ c hc)
  · rcases List.mem_cons.mp hc with rfl | hc
    · exact Or.inl rfl
    · exact Or.inr (hdigits _ c hc)

theorem nulFree_toString (n : Int) : NulFree (ascii (toString n)) := by
  rintro b hb rfl
  rcases mem_ascii_toString hb with h | h
  · exact absurd h (by decide)
  · exact absurd h.1 (by decide)

/-- The length of a printed integer. -/
theorem length_toString_le {n : Int} {k : ℕ} (hk : 0 < k) (hlo : -(10 ^ k : Int) < n)
    (hhi : n < 10 ^ k) : (ascii (toString n)).length ≤ k + 1 := by
  have hnat : ∀ m : ℕ, (m : Int) < 10 ^ k → (Nat.toDigits 10 m).length ≤ k := fun m hm =>
    (Nat.length_toDigits_le_iff (by omega) hk).mpr (by exact_mod_cast hm)
  rw [ascii, List.length_map, toList_toString]
  split
  · have := hnat n.toNat (by omega)
    omega
  · have := hnat (-n).toNat (by omega)
    rw [List.length_cons]
    omega

end PppAmb
