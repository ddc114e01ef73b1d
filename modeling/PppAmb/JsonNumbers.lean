import PppAmb.CDigits
import PppAmb.JsonStrings

/-!
# The Numbers of a JSON Text

The value of a JSON number, and the numbers that `%u` and `%.Nf` print.

## Main results

* `print_natText`, `value_natText`: what `%u` prints is a JSON number with this value.
* `print_fixedText`, `rounded_fixedText`: what `%.Nf` prints is a JSON number, whose value is the
  argument rounded to `N` decimals.
-/

namespace PppAmb

/-! ### Values -/

/-- The value of a run of digits. -/
def digitsNumber (digits : List (Fin 10)) : ℕ :=
  digits.foldl (fun n d => n * 10 + d.val) 0

/-- The exponent as an integer. -/
def ExponentText.value (e : ExponentText) : ℤ :=
  if e.sign = some true then -(digitsNumber e.digits : ℤ) else digitsNumber e.digits

/-- The value of the optional fraction. -/
def fractionValue : Option (List (Fin 10)) → ℚ
  | none => 0
  | some digits => digitsNumber digits / 10 ^ digits.length

/-- The value of the optional exponent. -/
def exponentValue : Option ExponentText → ℤ
  | none => 0
  | some e => e.value

/-- The value of a number. -/
def NumberText.value (x : NumberText) : ℚ :=
  (if x.negative then -1 else 1)
    * (digitsNumber (x.first :: x.integral) + fractionValue x.fraction)
    * 10 ^ exponentValue x.exponent

/-- A value rounded to some decimals: a multiple of the last one, at most half of it away. -/
def RoundedTo (digits : ℕ) (q v : ℚ) : Prop :=
  (∃ n : ℤ, v * 10 ^ digits = n) ∧ |v - q| ≤ 1 / 2 / 10 ^ digits

/-! ### Digits of a text -/

/-- The last digit of a number, as a `Fin 10`. -/
theorem mod_ten_lt (n : ℕ) : n % 10 < 10 :=
  Nat.mod_lt n (by omega)

/-- The digits of a text of digits. -/
def digitsOf (s : Bytes) : List (Fin 10) :=
  s.map fun c => ⟨(c.toNat - 48) % 10, mod_ten_lt _⟩

/-- Digits are printed as they were read. -/
theorem digitsText_digitsOf {s : Bytes} (h : ∀ c ∈ s, isDigitOf 10 c = true) :
    digitsText (digitsOf s) = s := by
  rw [digitsText, digitsOf, List.map_map]
  conv_rhs => rw [← List.map_id s]
  refine List.map_congr_left fun c hc => ?_
  obtain ⟨hlow, hhigh⟩ := isDigitOf_ten (h c hc)
  have h48 : (48 : UInt8).toNat = 48 := rfl
  apply UInt8.toNat_inj.mp
  simp only [Function.comp_apply, id_eq, UInt8.toNat_add, UInt8.toNat_ofNat', h48]
  omega

/-- A digit means its distance from the digit zero. -/
theorem digitValue_of_digit {c : UInt8} (h : isDigitOf 10 c = true) :
    digitValue c = some (c.toNat - 48) := by
  obtain ⟨hlow, hhigh⟩ := isDigitOf_ten h
  have hrange : (48 ≤ c && c ≤ 57) = true := by
    simpa [UInt8.le_iff_toNat_le] using ⟨hlow, hhigh⟩
  rw [digitValue, if_pos hrange]

/-- Digits mean the same number to JSON and to C. -/
theorem digitsNumber_digitsOf {s : Bytes} (h : ∀ c ∈ s, isDigitOf 10 c = true) :
    digitsNumber (digitsOf s) = digitsValue 10 s := by
  have hfold : ∀ n : ℕ, (digitsOf s).foldl (fun n d => n * 10 + d.val) n
      = s.foldl (fun n c => n * 10 + (digitValue c).getD 0) n := by
    induction s with
    | nil => exact fun n => rfl
    | cons c s ih =>
        intro n
        obtain ⟨hc, hs⟩ := List.forall_mem_cons.mp h
        have hrange := (isDigitOf_ten hc).2
        have hval : (c.toNat - 48) % 10 = (digitValue c).getD 0 := by
          rw [digitValue_of_digit hc]
          exact Nat.mod_eq_of_lt (by omega)
        rw [digitsOf, List.map_cons, List.foldl_cons, List.foldl_cons, ← hval]
        exact ih hs _
  exact hfold 0

/-- The number with the given sign, digits and decimals. -/
def numberText (negative : Bool) (integral : Bytes) (fraction : Option Bytes) : NumberText where
  negative := negative
  first := (digitsOf integral).headD ⟨0, mod_ten_lt 0⟩
  integral := (digitsOf integral).tail
  fraction := fraction.map digitsOf
  exponent := none

section NumberText

variable {negative : Bool} {integral : Bytes} {fraction : Option Bytes}

/-- The digits in front of the point. -/
theorem first_cons_integral (hne : integral ≠ []) :
    (numberText negative integral fraction).first
      :: (numberText negative integral fraction).integral = digitsOf integral := by
  obtain ⟨c, s, rfl⟩ := List.exists_cons_of_ne_nil hne
  rfl

/-- A number is printed with the digits it was made of. -/
theorem print_numberText (hne : integral ≠ []) (hdigits : ∀ c ∈ integral, isDigitOf 10 c = true)
    (hfraction : ∀ f ∈ fraction, ∀ c ∈ f, isDigitOf 10 c = true) :
    (numberText negative integral fraction).print = (if negative then [ch '-'] else []) ++ integral
      ++ fraction.elim [] fun f => ch '.' :: f := by
  rw [NumberText.print, first_cons_integral hne, digitsText_digitsOf hdigits]
  cases fraction with
  | none => simp [numberText, fractionText, exponentText]
  | some f =>
      simp [numberText, fractionText, exponentText, digitsText_digitsOf (hfraction f rfl)]

/-- The value of a text is what its digits say, with the sign. -/
theorem value_numberText (hne : integral ≠ []) (hdigits : ∀ c ∈ integral, isDigitOf 10 c = true)
    (hfraction : ∀ f ∈ fraction, ∀ c ∈ f, isDigitOf 10 c = true) :
    (numberText negative integral fraction).value = (if negative then -1 else 1)
      * (digitsValue 10 integral
        + fraction.elim 0 fun f => (digitsValue 10 f : ℚ) / 10 ^ f.length) := by
  rw [NumberText.value, first_cons_integral hne, digitsNumber_digitsOf hdigits]
  cases fraction with
  | none => simp [numberText, fractionValue, exponentValue]
  | some f =>
      have hlength : (digitsOf f).length = f.length := by simp [digitsOf]
      simp [numberText, fractionValue, exponentValue, digitsNumber_digitsOf (hfraction f rfl),
        hlength]

/-- Printed integers do not begin with a zero, unless they are zero. -/
theorem wellFormed_numberText {n : ℕ} (hfraction : ∀ f ∈ fraction, f ≠ []) :
    (numberText negative (unsigned n) fraction).wellFormed = true := by
  have hzero : (numberText negative (unsigned n) fraction).integral = []
      ∨ (numberText negative (unsigned n) fraction).first.val ≠ 0 := by
    obtain ⟨c, s, hs⟩ := List.exists_cons_of_ne_nil (unsigned_ne_nil n)
    have hc := isDigitOf_ten (unsigned_digits n c (by rw [hs]; exact List.mem_cons_self))
    by_cases h48 : c = 48
    · have hn : n = 0 := unsigned_head (by rw [hs, h48]; rfl)
      exact .inl (by rw [hn]; rfl)
    · have hne : c.toNat ≠ 48 := fun h => h48 (UInt8.toNat_inj.mp h)
      refine .inr ?_
      rw [numberText, hs]
      change (c.toNat - 48) % 10 ≠ 0
      omega
  have hdecimals : (numberText negative (unsigned n) fraction).fraction.all
      (fun digits => !digits.isEmpty) = true := by
    cases fraction with
    | none => rfl
    | some f =>
        have hf := hfraction f rfl
        simpa [numberText, digitsOf] using hf
  simp only [NumberText.wellFormed, hdecimals, Bool.and_true, Bool.and_eq_true, Bool.or_eq_true,
    List.isEmpty_iff, bne_iff_ne]
  exact ⟨hzero, rfl⟩

end NumberText

/-! ### Integers -/

/-- What `%u` prints. -/
def natText (n : ℕ) : NumberText :=
  numberText false (unsigned n) none

/-- A natural number is printed as `%u` does. -/
@[simp] theorem print_natText (n : ℕ) : (natText n).print = unsigned n := by
  rw [natText, print_numberText (unsigned_ne_nil n) (unsigned_digits n) (by simp)]
  simp

/-- A natural number is printed without a zero in front. -/
@[simp] theorem wellFormed_natText (n : ℕ) : (natText n).wellFormed = true :=
  wellFormed_numberText (by simp)

/-- A natural number means itself. -/
@[simp] theorem value_natText (n : ℕ) : (natText n).value = n := by
  rw [natText, value_numberText (unsigned_ne_nil n) (unsigned_digits n) (by simp),
    digitsValue_unsigned]
  simp

/-! ### Decimals -/

/-- The nearest number is at most one half away. -/
theorem roundHalfEven_near {q : ℚ} (hq : 0 ≤ q) : |(roundHalfEven q : ℚ) - q| ≤ 1 / 2 := by
  obtain ⟨n, hn⟩ : ∃ n : ℕ, ⌊q⌋ = n := Int.eq_ofNat_of_zero_le (Int.floor_nonneg.mpr hq)
  have hlow : (n : ℚ) ≤ q := by
    have := Int.floor_le q
    rwa [hn] at this
  have hhigh : q < n + 1 := by
    have := Int.lt_floor_add_one q
    rwa [hn] at this
  simp only [roundHalfEven, hn, Int.toNat_natCast]
  split_ifs with hdown hup
  · rw [abs_le]
    constructor <;> linarith
  · push_cast
    rw [abs_le]
    constructor <;> linarith
  · have hhalf : q - n = 1 / 2 := le_antisymm (not_lt.mp hup) (not_lt.mp hdown)
    have hbit : (n % 2 : ℕ) ≤ (1 : ℚ) := by exact_mod_cast (by omega : n % 2 ≤ 1)
    have hbit' : (0 : ℚ) ≤ (n % 2 : ℕ) := Nat.cast_nonneg _
    push_cast at hbit hbit' ⊢
    rw [abs_le]
    constructor <;> linarith

/-- Rounding does not go beyond an integer. -/
theorem roundHalfEven_le {q : ℚ} {m : ℕ} (hq : 0 ≤ q) (h : q ≤ m) : roundHalfEven q ≤ m := by
  have hnear := abs_le.mp (roundHalfEven_near hq)
  have hlt : (roundHalfEven q : ℚ) < m + 1 := by linarith [hnear.2]
  exact Nat.lt_succ_iff.mp (by exact_mod_cast hlt)

/-- What `%.Nf` prints. -/
def fixedText (digits : ℕ) (q : ℚ) : NumberText :=
  let n := roundHalfEven (|q| * 10 ^ digits)
  numberText (q < 0) (unsigned (n / 10 ^ digits)) (some (lastDigits digits n))

section Fixed

variable (digits : ℕ) (q : ℚ)

/-- The digits behind the point are digits. -/
theorem lastDigits_some (n : ℕ) :
    ∀ f ∈ some (lastDigits digits n), ∀ c ∈ f, isDigitOf 10 c = true := by
  intro f hf
  obtain rfl := Option.some.inj hf
  exact lastDigits_digits digits n

/-- A number with a point is printed as `%.*f` does. -/
@[simp] theorem print_fixedText : (fixedText digits q).print = fixed digits q := by
  rw [fixedText, print_numberText (unsigned_ne_nil _) (unsigned_digits _) (lastDigits_some _ _),
    fixed]
  simp [ascii, ch]

/-- With digits behind the point the text is a number of JSON. -/
theorem wellFormed_fixedText (h : digits ≠ 0) : (fixedText digits q).wellFormed = true := by
  refine wellFormed_numberText fun f hf => ?_
  obtain rfl := Option.some.inj hf
  intro hnil
  have hlength := length_lastDigits digits (roundHalfEven (|q| * 10 ^ digits))
  rw [hnil] at hlength
  exact h hlength.symm

/-- The value of the text is the number, rounded to the digits that are printed. -/
theorem value_fixedText : (fixedText digits q).value
    = (if q < 0 then -1 else 1) * (roundHalfEven (|q| * 10 ^ digits) / 10 ^ digits) := by
  rw [fixedText, value_numberText (unsigned_ne_nil _) (unsigned_digits _) (lastDigits_some _ _),
    digitsValue_unsigned]
  simp only [Option.elim_some, digitsValue_lastDigits, length_lastDigits, decide_eq_true_eq]
  congr 1
  generalize roundHalfEven (|q| * 10 ^ digits) = n
  have hpow : ((10 ^ digits : ℕ) : ℚ) ≠ 0 := by positivity
  have hsplit : ((n / 10 ^ digits : ℕ) : ℚ) * (10 ^ digits : ℕ) + (n % 10 ^ digits : ℕ) = n := by
    exact_mod_cast Nat.div_add_mod' n (10 ^ digits)
  push_cast at hpow hsplit ⊢
  field_simp
  linarith

/-- **Rounding.** What is printed is the argument rounded to the decimals that are printed. -/
theorem rounded_fixedText : RoundedTo digits q (fixedText digits q).value := by
  have hpow : (0 : ℚ) < 10 ^ digits := by positivity
  have hnear := roundHalfEven_near (q := |q| * 10 ^ digits) (by positivity)
  rw [value_fixedText]
  generalize roundHalfEven (|q| * 10 ^ digits) = n at hnear
  have hscaled : |(n : ℚ) / 10 ^ digits - (|q|)| ≤ 1 / 2 / 10 ^ digits := by
    have heq : (n : ℚ) / 10 ^ digits - |q| = (n - |q| * 10 ^ digits) / 10 ^ digits := by
      field_simp
    rw [heq, abs_div, abs_of_pos hpow]
    gcongr
  split_ifs with hneg
  · refine ⟨⟨-(n : ℤ), by push_cast; field_simp⟩, ?_⟩
    rw [abs_of_neg hneg] at hscaled
    have heq : -1 * ((n : ℚ) / 10 ^ digits) - q = -((n : ℚ) / 10 ^ digits - -q) := by ring
    rwa [heq, abs_neg]
  · refine ⟨⟨(n : ℤ), by push_cast; field_simp⟩, ?_⟩
    rw [abs_of_nonneg (not_lt.mp hneg)] at hscaled
    rwa [one_mul]

/-- The length of what is printed. -/
theorem length_fixed_le {k : ℕ} (hk : k ≠ 0) (h : |q| * 10 ^ digits ≤ (10 ^ (k + digits) - 1 : ℕ)) :
    (fixed digits q).length ≤ (if q < 0 then 1 else 0) + k + 1 + digits := by
  have hround := roundHalfEven_le (by positivity) h
  have hlt : roundHalfEven (|q| * 10 ^ digits) / 10 ^ digits < 10 ^ k := by
    rw [Nat.div_lt_iff_lt_mul (by positivity), ← pow_add]
    have : 0 < 10 ^ (k + digits) := by positivity
    omega
  have hlen := length_unsigned_le hk hlt
  have hsign : (if q < 0 then ascii "-" else []).length = if q < 0 then 1 else 0 := by
    split <;> rfl
  have hpoint : (ascii ".").length = 1 := rfl
  simp only [fixed, List.length_append, length_lastDigits, hsign, hpoint]
  omega

end Fixed

end PppAmb
