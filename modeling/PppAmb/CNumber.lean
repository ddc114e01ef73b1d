import Mathlib.Tactic.Ring
import PppAmb.CString

/-!
# Numbers in the Manner of the C Library

`atoi` and `strtoul` with base 0, as the C library of the target reads them: `int` and
`unsigned long` have 32 bits, `atoi` is `strtol` with base 10, and both functions stop at
the first byte that is no digit and saturate on overflow.

## Main results

* `atoi_decimal`: `atoi` of decimal digits.
* `strtoul_prints`: `strtoul` reads back what was printed in canonical decimal or in
  hexadecimal.
* `strtoul_prefix_ne`: no proper beginning of a numeral is read as the value of the
  numeral, unless this is zero.
-/

namespace PppAmb

/-- `isspace` in the C locale. -/
def isspace (c : UInt8) : Bool :=
  c = 32 || (9 ≤ c && c ≤ 13)

/-- The value of a digit, letters included. -/
def digitValue (c : UInt8) : Option ℕ :=
  if 48 ≤ c && c ≤ 57 then some (c.toNat - 48)
  else if 97 ≤ c && c ≤ 122 then some (c.toNat - 97 + 10)
  else if 65 ≤ c && c ≤ 90 then some (c.toNat - 65 + 10)
  else none

/-- Whether a byte is a digit of the base. -/
def isDigitOf (base : ℕ) (c : UInt8) : Bool :=
  match digitValue c with
  | some d => d < base
  | none => false

/-- The value of a list of digits, most significant first. -/
def digitsValue (base : ℕ) (ds : Bytes) : ℕ :=
  ds.foldl (fun n c => n * base + (digitValue c).getD 0) 0

/-- The optional sign of a number: whether it is negative, and what follows. -/
def signOf (s : Bytes) : Bool × Bytes :=
  match s with
  | [] => (false, [])
  | c :: r => if c = 45 then (true, r) else if c = 43 then (false, r) else (false, s)

/-- `atoi`. -/
def atoi (s : Bytes) : Int :=
  let (negative, s) := signOf (s.dropWhile isspace)
  let n := digitsValue 10 (s.takeWhile (isDigitOf 10))
  if negative then max (-(2 ^ 31 : Int)) (-(n : Int)) else min (2 ^ 31 - 1 : Int) n

/-- The base that base 0 stands for, and the digits that follow the mark of the base. -/
def detectBase (s : Bytes) : ℕ × Bytes :=
  match s with
  | [] => (10, [])
  | c :: r =>
      if c = 48 then
        match r with
        | [] => (8, s)
        | x :: r => if x = 120 || x = 88 then (16, r) else (8, s)
      else (10, s)

/-- `strtoul` with base 0. -/
def strtoul (s : Bytes) : ℕ :=
  let (negative, s) := signOf (s.dropWhile isspace)
  let (base, s) := detectBase s
  let n := digitsValue base (s.takeWhile (isDigitOf base))
  if n > 2 ^ 32 - 1 then 2 ^ 32 - 1 else if negative then (2 ^ 32 - n) % 2 ^ 32 else n

/-! ### Numerals -/

/-- The value of decimal digits. -/
def decimal (s : Bytes) : Option ℕ :=
  if s ≠ [] ∧ s.all (isDigitOf 10) then some (digitsValue 10 s) else none

/-- The value of a numeral: hexadecimal digits behind `0x`, else decimal digits. -/
def numeral (s : Bytes) : Option ℕ :=
  match s with
  | c :: x :: r =>
      if c = 48 ∧ (x = 120 ∨ x = 88) then
        if r ≠ [] ∧ r.all (isDigitOf 16) then some (digitsValue 16 r) else none
      else decimal s
  | _ => decimal s

/-- Decimal digits. -/
theorem decimal_digits {s : Bytes} {v : ℕ} (h : decimal s = some v) :
    s ≠ [] ∧ ∀ c ∈ s, isDigitOf 10 c = true := by
  rw [decimal] at h
  split at h
  · rename_i hs
    exact ⟨hs.1, fun c hc => List.all_eq_true.mp hs.2 c hc⟩
  · exact absurd h (by simp)

theorem decimal_value {s : Bytes} {v : ℕ} (h : decimal s = some v) : digitsValue 10 s = v := by
  rw [decimal] at h
  split at h
  · exact Option.some.inj h
  · exact absurd h (by simp)

theorem foldl_digits (base n : ℕ) (ds : Bytes) :
    ds.foldl (fun n c => n * base + (digitValue c).getD 0) n
      = n * base ^ ds.length + digitsValue base ds := by
  induction ds generalizing n with
  | nil => simp [digitsValue]
  | cons c ds ih =>
      rw [digitsValue, List.foldl_cons, List.foldl_cons, ih, ih (0 * base + _), List.length_cons,
        pow_succ]
      ring

theorem digitsValue_append (base : ℕ) (p q : Bytes) :
    digitsValue base (p ++ q) = digitsValue base p * base ^ q.length + digitsValue base q := by
  rw [digitsValue, List.foldl_append]
  exact foldl_digits base _ q

/-- Digits mean less in a smaller base. -/
theorem digitsValue_mono {base base' : ℕ} (h : base ≤ base') (ds : Bytes) :
    digitsValue base ds ≤ digitsValue base' ds := by
  induction ds using List.reverseRecOn with
  | nil => simp [digitsValue]
  | append_singleton ds c ih =>
      rw [digitsValue_append, digitsValue_append]
      have hmul : digitsValue base ds * base ≤ digitsValue base' ds * base' := Nat.mul_le_mul ih h
      have hone : digitsValue base [c] = digitsValue base' [c] := by simp [digitsValue]
      simp only [List.length_singleton, pow_one]
      omega

theorem digitsValue_le_of_isPrefix {base : ℕ} (hbase : 1 ≤ base) {p s : Bytes} (h : p <+: s) :
    digitsValue base p ≤ digitsValue base s := by
  obtain ⟨q, rfl⟩ := h
  rw [digitsValue_append]
  have hpow : 1 ≤ base ^ q.length := Nat.one_le_pow _ _ hbase
  have hmul : digitsValue base p * 1 ≤ digitsValue base p * base ^ q.length :=
    Nat.mul_le_mul_left _ hpow
  omega

/-- A proper beginning of some digits means less than all of them, if it means anything. -/
theorem digitsValue_lt_of_isPrefix {base : ℕ} (hbase : 2 ≤ base) {p s : Bytes} (h : p <+: s)
    (hne : p ≠ s) (hpos : 0 < digitsValue base p) : digitsValue base p < digitsValue base s := by
  obtain ⟨q, rfl⟩ := h
  rw [digitsValue_append]
  cases q with
  | nil => exact absurd (List.append_nil p).symm hne
  | cons c q =>
      have hpow : 2 ≤ base ^ (c :: q).length := by
        calc 2 ≤ base := hbase
          _ = base ^ 1 := (pow_one base).symm
          _ ≤ base ^ (c :: q).length := Nat.pow_le_pow_right (by omega) (by simp)
      have hmul : digitsValue base p * 2 ≤ digitsValue base p * base ^ (c :: q).length :=
        Nat.mul_le_mul_left _ hpow
      omega

theorem takeWhile_digits {base : ℕ} {s : Bytes} (h : s.all (isDigitOf base) = true) :
    s.takeWhile (isDigitOf base) = s :=
  List.takeWhile_eq_self_iff.mpr fun c hc => List.all_eq_true.mp h c hc

theorem isDigitOf_ten {c : UInt8} (h : isDigitOf 10 c = true) :
    48 ≤ c.toNat ∧ c.toNat ≤ 57 := by
  simp only [isDigitOf, digitValue] at h
  split at h
  · rename_i d hd
    split at hd
    · rename_i hc
      simpa [UInt8.le_iff_toNat_le] using hc
    · split at hd
      · obtain rfl := Option.some.inj hd
        simp at h
      · split at hd
        · obtain rfl := Option.some.inj hd
          simp at h
        · exact absurd hd (by simp)
  · exact absurd h (by simp)

/-- A decimal digit is neither white space nor a sign nor the mark of a base. -/
theorem decimalDigit_plain {c : UInt8} (h : isDigitOf 10 c = true) :
    isspace c = false ∧ c ≠ 45 ∧ c ≠ 43 ∧ c ≠ 120 ∧ c ≠ 88 := by
  obtain ⟨h₁, h₂⟩ := isDigitOf_ten h
  refine ⟨?_, ?_, ?_, ?_, ?_⟩
  · simp only [isspace, Bool.or_eq_false_iff, decide_eq_false_iff_not, Bool.and_eq_false_iff,
      UInt8.le_iff_toNat_le, ← UInt8.toNat_inj]
    constructor
    · simp
      omega
    · right
      simp
      omega
  all_goals
    rintro rfl
    simp at h₁ h₂

/-- White space and a sign are not found in front of a digit. -/
theorem signOf_digits {s : Bytes} (h : s.all (isDigitOf 10) = true) :
    signOf (s.dropWhile isspace) = (false, s) := by
  cases s with
  | nil => rfl
  | cons c r =>
      have hc : isDigitOf 10 c = true := List.all_eq_true.mp h c (by simp)
      obtain ⟨hspace, hminus, hplus, -⟩ := decimalDigit_plain hc
      simp [signOf, hspace, hminus, hplus]

/-- `atoi` of decimal digits is their value, as far as `int` holds it. -/
theorem atoi_decimal {s : Bytes} {n : ℕ} (h : decimal s = some n) :
    atoi s = min (2 ^ 31 - 1 : Int) n := by
  rw [decimal] at h
  split at h
  · rename_i hs
    obtain rfl := Option.some.inj h
    rw [atoi, signOf_digits hs.2]
    simp only [Bool.false_eq_true, if_false, takeWhile_digits hs.2]
  · exact absurd h (by simp)

/-- Decimal digits are never read as more than their value. -/
theorem strtoul_le_decimal {s : Bytes} (h : s.all (isDigitOf 10) = true) :
    strtoul s ≤ digitsValue 10 s := by
  have hbase : (detectBase s = (10, s)) ∨ (detectBase s = (8, s)) := by
    cases s with
    | nil => exact Or.inl rfl
    | cons c r =>
        by_cases hc : c = 48
        · right
          cases r with
          | nil => simp [detectBase, hc]
          | cons x r =>
              have hx : isDigitOf 10 x = true := List.all_eq_true.mp h x (by simp)
              obtain ⟨-, -, -, hx₁, hx₂⟩ := decimalDigit_plain hx
              simp [detectBase, hc, hx₁, hx₂]
        · left
          simp [detectBase, hc]
  have hread : ∀ base ≤ 10, detectBase s = (base, s) → strtoul s ≤ digitsValue 10 s := by
    intro base hle hdetect
    have hvalue : digitsValue base (s.takeWhile (isDigitOf base)) ≤ digitsValue 10 s :=
      (digitsValue_mono hle _).trans (digitsValue_le_of_isPrefix (by omega) (List.takeWhile_prefix _))
    rw [strtoul, signOf_digits h]
    simp only [hdetect, Bool.false_eq_true, if_false]
    split
    · omega
    · exact hvalue
  rcases hbase with h10 | h8
  · exact hread 10 le_rfl h10
  · exact hread 8 (by omega) h8

/-- Hexadecimal digits behind the mark of the base are never read as more than their
value. -/
theorem strtoul_le_hex {x : UInt8} (hx : x = 120 ∨ x = 88) (r : Bytes) :
    strtoul (48 :: x :: r) ≤ digitsValue 16 r := by
  have hsign : signOf ((48 :: x :: r).dropWhile isspace) = (false, 48 :: x :: r) := by
    have hspace : isspace 48 = false := by decide
    rw [List.dropWhile_cons_of_neg (by simp [hspace])]
    rfl
  have hdetect : detectBase (48 :: x :: r) = (16, r) := by
    rcases hx with rfl | rfl <;> rfl
  have hvalue : digitsValue 16 (r.takeWhile (isDigitOf 16)) ≤ digitsValue 16 r :=
    digitsValue_le_of_isPrefix (by omega) (List.takeWhile_prefix _)
  rw [strtoul, hsign]
  simp only [hdetect, Bool.false_eq_true, if_false]
  split
  · omega
  · exact hvalue

theorem numeral_ne_nil {s : Bytes} {v : ℕ} (h : numeral s = some v) : s ≠ [] := by
  rintro rfl
  simp [numeral, decimal] at h

/-- The two kinds of numerals. -/
theorem numeral_cases {s : Bytes} {v : ℕ} (h : numeral s = some v) :
    (∃ x r, s = 48 :: x :: r ∧ (x = 120 ∨ x = 88) ∧ r.all (isDigitOf 16) = true ∧
      v = digitsValue 16 r) ∨ (s.all (isDigitOf 10) = true ∧ v = digitsValue 10 s) := by
  have hdec : decimal s = some v → s.all (isDigitOf 10) = true ∧ v = digitsValue 10 s := by
    intro hs
    rw [decimal] at hs
    split at hs
    · rename_i hall
      exact ⟨hall.2, (Option.some.inj hs).symm⟩
    · exact absurd hs (by simp)
  unfold numeral at h
  split at h
  · rename_i c x r
    split at h
    · rename_i hmark
      split at h
      · rename_i hr
        obtain ⟨rfl, hx⟩ := hmark
        exact Or.inl ⟨x, r, rfl, hx, hr.2, (Option.some.inj h).symm⟩
      · exact absurd h (by simp)
    · exact Or.inr (hdec h)
  · exact Or.inr (hdec h)

/-- **Cut numerals.** A proper beginning of a numeral is not read as the value of the
numeral, unless this is zero. -/
theorem strtoul_prefix_ne {p s : Bytes} {v : ℕ} (h : numeral s = some v) (hv : v ≠ 0)
    (hp : p <+: s) (hne : p ≠ s) : strtoul p ≠ v := by
  intro heq
  rcases numeral_cases h with ⟨x, r, rfl, hx, hr, rfl⟩ | ⟨hs, rfl⟩
  · rcases p with _ | ⟨c, _ | ⟨y, q⟩⟩
    · exact hv heq.symm
    · obtain ⟨rfl, -⟩ := List.cons_prefix_cons.mp hp
      exact hv heq.symm
    · obtain ⟨rfl, hp'⟩ := List.cons_prefix_cons.mp hp
      obtain ⟨rfl, hq⟩ := List.cons_prefix_cons.mp hp'
      have hle := strtoul_le_hex hx q
      have hlt := digitsValue_lt_of_isPrefix (by omega : 2 ≤ 16) hq (by simpa using hne) (by omega)
      omega
  · have hall : p.all (isDigitOf 10) = true :=
      List.all_eq_true.mpr fun c hc => List.all_eq_true.mp hs c (hp.subset hc)
    have hle := strtoul_le_decimal hall
    have hlt := digitsValue_lt_of_isPrefix (by omega : 2 ≤ 10) hp hne (by omega)
    omega

/-! ### Printed numbers -/

/-- The text is the number in decimal without leading zeros, or in hexadecimal behind `0x`
with any number of leading zeros. -/
def Prints (text : Bytes) (v : ℕ) : Prop :=
  (decimal text = some v ∧ (text = [48] ∨ text.head? ≠ some 48)) ∨
    ∃ x r, text = 48 :: x :: r ∧ (x = 120 ∨ x = 88) ∧ r ≠ [] ∧ r.all (isDigitOf 16) = true ∧
      digitsValue 16 r = v

/-- White space is no digit. -/
theorem isDigitOf_of_isspace {c : UInt8} (h : isspace c = true) (base : ℕ) :
    isDigitOf base c = false := by
  have hle : c.toNat ≤ 32 := by
    simp only [isspace, Bool.or_eq_true, decide_eq_true_eq, Bool.and_eq_true,
      UInt8.le_iff_toNat_le] at h
    rcases h with rfl | ⟨-, h13⟩
    · rfl
    · have : (13 : UInt8).toNat = 13 := rfl
      omega
  have hnone : digitValue c = none := by
    have h48 : (48 : UInt8).toNat = 48 := rfl
    have h65 : (65 : UInt8).toNat = 65 := rfl
    have h97 : (97 : UInt8).toNat = 97 := rfl
    rw [digitValue, if_neg, if_neg, if_neg]
    all_goals
      simp only [Bool.and_eq_true, decide_eq_true_eq, UInt8.le_iff_toNat_le, not_and]
      omega
  rw [isDigitOf, hnone]

/-- Digits end where white space begins. -/
theorem takeWhile_digits_append {base : ℕ} {s rest : Bytes} (hs : s.all (isDigitOf base) = true)
    (hrest : ∀ c ∈ rest.head?, isspace c = true) :
    (s ++ rest).takeWhile (isDigitOf base) = s := by
  rw [List.takeWhile_append_of_pos fun c hc => List.all_eq_true.mp hs c hc]
  rcases rest with _ | ⟨c, rest⟩
  · simp
  · rw [List.takeWhile_cons_of_neg (by simp [isDigitOf_of_isspace (hrest c rfl)]), List.append_nil]

/-- The digits of a decimal number that does not start with a zero. -/
theorem strtoul_decimal {s rest : Bytes} {v : ℕ} (hs : decimal s = some v)
    (hhead : s = [48] ∨ s.head? ≠ some 48) (hv : v < 2 ^ 32)
    (hrest : ∀ c ∈ rest.head?, isspace c = true) : strtoul (s ++ rest) = v := by
  rw [decimal] at hs
  split at hs
  · rename_i hdigits
    obtain rfl := Option.some.inj hs
    rcases s with _ | ⟨c, s⟩
    · exact absurd rfl hdigits.1
    · have hc : isDigitOf 10 c = true := List.all_eq_true.mp hdigits.2 c List.mem_cons_self
      obtain ⟨hspace, hminus, hplus, -⟩ := decimalDigit_plain hc
      have hsign : signOf ((c :: s ++ rest).dropWhile isspace) = (false, c :: s ++ rest) := by
        simp [signOf, hspace, hminus, hplus]
      rcases hhead with hzero | hne
      · obtain ⟨rfl, rfl⟩ := List.cons.inj hzero
        have hbase : detectBase ([48] ++ rest) = (8, [48] ++ rest) := by
          rcases rest with _ | ⟨x, rest⟩
          · rfl
          · have hx := hrest x rfl
            have hx₁ : x ≠ 120 := fun h => absurd (h ▸ hx) (by decide)
            have hx₂ : x ≠ 88 := fun h => absurd (h ▸ hx) (by decide)
            simp [detectBase, hx₁, hx₂]
        have hdigit : ([48] ++ rest).takeWhile (isDigitOf 8) = [48] :=
          takeWhile_digits_append rfl hrest
        rw [strtoul, hsign]
        simp only [hbase, hdigit]
        rfl
      · have hbase : detectBase (c :: s ++ rest) = (10, c :: s ++ rest) := by
          have hc48 : c ≠ 48 := fun h => hne (h ▸ rfl)
          simp [detectBase, hc48]
        rw [strtoul, hsign]
        simp only [hbase, takeWhile_digits_append hdigits.2 hrest, Bool.false_eq_true, if_false]
        rw [if_neg (by omega)]
  · exact absurd hs (by simp)

/-- The digits of a hexadecimal number. -/
theorem strtoul_hex {x : UInt8} (hx : x = 120 ∨ x = 88) {r rest : Bytes}
    (hr : r.all (isDigitOf 16) = true) (hv : digitsValue 16 r < 2 ^ 32)
    (hrest : ∀ c ∈ rest.head?, isspace c = true) :
    strtoul (48 :: x :: r ++ rest) = digitsValue 16 r := by
  have hsign : signOf ((48 :: x :: r ++ rest).dropWhile isspace)
      = (false, 48 :: x :: r ++ rest) := by
    have hspace : isspace 48 = false := by decide
    rw [List.cons_append, List.dropWhile_cons_of_neg (by simp [hspace])]
    rfl
  have hbase : detectBase (48 :: x :: r ++ rest) = (16, r ++ rest) := by
    rcases hx with rfl | rfl <;> rfl
  rw [strtoul, hsign]
  simp only [hbase, takeWhile_digits_append hr hrest, Bool.false_eq_true, if_false]
  rw [if_neg (by omega)]

/-- **Reading back.** `strtoul` reads a printed number, if nothing or white space follows. -/
theorem strtoul_prints {text rest : Bytes} {v : ℕ} (h : Prints text v) (hv : v < 2 ^ 32)
    (hrest : ∀ c ∈ rest.head?, isspace c = true) : strtoul (text ++ rest) = v := by
  rcases h with ⟨hdec, hhead⟩ | ⟨x, r, rfl, hx, -, hr, rfl⟩
  · exact strtoul_decimal hdec hhead hv hrest
  · exact strtoul_hex hx hr hv hrest

/-- A digit of any base up to 16 is neither white space nor a comma. -/
theorem digit_plain {c : UInt8} (h : isDigitOf 16 c = true) : isspace c = false ∧ c ≠ 44 := by
  constructor
  · by_contra hspace
    rw [isDigitOf_of_isspace (by simpa using hspace)] at h
    exact absurd h (by simp)
  · rintro rfl
    exact absurd h (by decide)

/-- A decimal digit is a hexadecimal one. -/
theorem isDigitOf_mono {base base' : ℕ} (hle : base ≤ base') {c : UInt8}
    (h : isDigitOf base c = true) : isDigitOf base' c = true := by
  rw [isDigitOf] at h ⊢
  split at h
  · simp only [decide_eq_true_eq] at h ⊢
    omega
  · exact absurd h (by simp)

/-- A printed number has neither white space nor a comma in it, and is not empty. -/
theorem prints_plain {text : Bytes} {v : ℕ} (h : Prints text v) :
    text ≠ [] ∧ ∀ c ∈ text, isspace c = false ∧ c ≠ 44 := by
  rcases h with ⟨hdec, -⟩ | ⟨x, r, rfl, hx, -, hr, -⟩
  · obtain ⟨hne, hdigits⟩ := decimal_digits hdec
    exact ⟨hne, fun c hc => digit_plain (isDigitOf_mono (by omega : 10 ≤ 16) (hdigits c hc))⟩
  · refine ⟨by simp, fun c hc => ?_⟩
    rcases List.mem_cons.mp hc with rfl | hc
    · exact ⟨by decide, by decide⟩
    · rcases List.mem_cons.mp hc with rfl | hc
      · rcases hx with rfl | rfl <;> exact ⟨by decide, by decide⟩
      · exact digit_plain (List.all_eq_true.mp hr c hc)

/-- A numeral has no dash in it. -/
theorem dash_not_mem_numeral {s : Bytes} {v : ℕ} (h : numeral s = some v) : 45 ∉ s := by
  have hhex : isDigitOf 16 45 = false := by decide
  have hdec : isDigitOf 10 45 = false := by decide
  intro hmem
  rcases numeral_cases h with ⟨x, r, rfl, hx, hr, -⟩ | ⟨hs, -⟩
  · rcases List.mem_cons.mp hmem with h0 | hmem
    · exact absurd h0 (by decide)
    · rcases List.mem_cons.mp hmem with h1 | hmem
      · rcases hx with rfl | rfl <;> exact absurd h1 (by decide)
      · exact absurd ((List.all_eq_true.mp hr 45 hmem).symm.trans hhex) (by decide)
  · exact absurd ((List.all_eq_true.mp hs 45 hmem).symm.trans hdec) (by decide)

end PppAmb
