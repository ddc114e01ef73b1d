import PppAmb.CFormat
import PppAmb.CNumber

/-!
# The Digits of Printed Numbers

What `%u` and the decimals of `%.Nf` print, digit by digit, with the values of these digits and
their number.

## Main results

* `digitsValue_unsigned`, `digitsValue_lastDigits`: the digits have the value that was printed.
* `length_unsigned_le`: a number below `10 ^ k` has at most `k` digits.
-/

namespace PppAmb

/-! ### All digits -/

/-- The last digit of a number comes behind the others. -/
theorem unsigned_eq (n : ℕ) :
    unsigned n = (if n < 10 then [] else unsigned (n / 10)) ++ [digit n] := by
  have hdigit : ∀ d < 10, UInt8.ofNat (Nat.digitChar d).toNat = digit d := by decide
  simp only [unsigned, ascii, Nat.toString_eq_repr, Nat.toList_repr]
  rw [Nat.toDigits_eq_if (by omega)]
  split
  · rename_i hn
    simp [hdigit n hn]
  · have hmod : digit n = digit (n % 10) := by simp [digit]
    simp [hdigit (n % 10) (Nat.mod_lt _ (by omega)), hmod]

/-- A printed digit is one of base ten. -/
theorem isDigitOf_digit (n : ℕ) : isDigitOf 10 (digit n) = true := by
  have hall : ∀ d < 10, isDigitOf 10 (digit d) = true := by decide
  have hmod : digit n = digit (n % 10) := by simp [digit]
  rw [hmod]
  exact hall _ (Nat.mod_lt _ (by omega))

/-- `%u` prints digits only, so that no separator stands in a number. -/
theorem unsigned_digits (n : ℕ) : ∀ c ∈ unsigned n, isDigitOf 10 c = true := by
  induction n using Nat.strongRecOn with
  | ind n ih =>
      intro c hc
      rw [unsigned_eq] at hc
      rcases List.mem_append.mp hc with hc | hc
      · split at hc
        · exact absurd hc (by simp)
        · exact ih (n / 10) (by omega) c hc
      · rw [List.mem_singleton.mp hc]
        exact isDigitOf_digit n

/-- Only zero is printed with a zero in front. -/
theorem unsigned_head {n : ℕ} (h : (unsigned n).head? = some 48) : n = 0 := by
  induction n using Nat.strongRecOn with
  | ind n ih =>
      rw [unsigned_eq] at h
      split at h
      · rename_i hn
        have h48 : digit n = digit 0 := Option.some.inj h
        have hmod := digit_inj h48
        omega
      · rename_i hn
        have hne : unsigned (n / 10) ≠ [] := by
          rw [unsigned_eq]
          simp
        rw [List.head?_append_of_ne_nil _ hne] at h
        have := ih (n / 10) (by omega) h
        omega

/-- What is no digit is not among digits. -/
theorem not_mem_digits {s : Bytes} (h : ∀ c ∈ s, isDigitOf 10 c = true) {c : UInt8}
    (hc : isDigitOf 10 c = false) : c ∉ s := by
  intro hmem
  simp [h c hmem] at hc

/-- Zero is printed as well. -/
theorem unsigned_ne_nil (n : ℕ) : unsigned n ≠ [] := by
  rw [unsigned_eq]
  simp

/-- A printed digit is read back as the last one of the number. -/
theorem digitsValue_digit (n : ℕ) : digitsValue 10 [digit n] = n % 10 := by
  have hall : ∀ d < 10, digitsValue 10 [digit d] = d := by decide
  have hmod : digit n = digit (n % 10) := by simp [digit]
  rw [hmod]
  exact hall _ (Nat.mod_lt _ (by omega))

/-- **Values.** The digits of a number have its value. -/
theorem digitsValue_unsigned (n : ℕ) : digitsValue 10 (unsigned n) = n := by
  induction n using Nat.strongRecOn with
  | ind n ih =>
      rw [unsigned_eq, digitsValue_append, digitsValue_digit]
      split
      · rename_i hn
        simp [digitsValue, Nat.mod_eq_of_lt hn]
      · rename_i hn
        rw [ih (n / 10) (by omega), List.length_singleton]
        omega

/-- Numbers that are printed alike are equal. -/
theorem unsigned_inj {m n : ℕ} (h : unsigned m = unsigned n) : m = n := by
  rw [← digitsValue_unsigned m, h, digitsValue_unsigned]

/-- **Lengths.** A number below `10 ^ k` has at most `k` digits. -/
theorem length_unsigned_le {n k : ℕ} (hk : k ≠ 0) (h : n < 10 ^ k) : (unsigned n).length ≤ k := by
  induction k generalizing n with
  | zero => exact absurd rfl hk
  | succ k ih =>
      rw [unsigned_eq, List.length_append, List.length_singleton]
      split
      · simp
      · rename_i hn
        have hk' : k ≠ 0 := by
          rintro rfl
          omega
        have hdiv : n / 10 < 10 ^ k := by
          rw [Nat.div_lt_iff_lt_mul (by omega), ← pow_succ]
          exact h
        have := ih hk' hdiv
        omega

/-! ### The last digits -/

/-- A field of a fixed width has that width, whatever the number is. -/
@[simp] theorem length_lastDigits (width n : ℕ) : (lastDigits width n).length = width := by
  simp [lastDigits]

/-- A field of a fixed width is made of digits. -/
theorem lastDigits_digits (width n : ℕ) : ∀ c ∈ lastDigits width n, isDigitOf 10 c = true := by
  intro c hc
  obtain ⟨i, -, rfl⟩ := List.mem_map.mp hc
  exact isDigitOf_digit _

/-- The last digits end with the digit of the units. -/
theorem lastDigits_succ (width n : ℕ) :
    lastDigits (width + 1) n = lastDigits width (n / 10) ++ [digit n] := by
  simp only [lastDigits, List.range_succ_eq_map, List.reverse_cons, List.map_append, List.map_cons,
    List.map_nil, pow_zero, Nat.div_one, ← List.map_reverse, List.map_map]
  congr 1
  refine List.map_congr_left fun i _ => ?_
  simp only [Function.comp_apply, Nat.div_div_eq_div_mul, pow_succ, Nat.mul_comm 10]

/-- A field of a fixed width is read back modulo the power of ten of its width. -/
theorem digitsValue_lastDigits (width n : ℕ) :
    digitsValue 10 (lastDigits width n) = n % 10 ^ width := by
  induction width generalizing n with
  | zero => simp [lastDigits, digitsValue, Nat.mod_one]
  | succ width ih =>
      rw [lastDigits_succ, digitsValue_append, digitsValue_digit, ih, List.length_singleton, pow_one,
        pow_succ', Nat.mod_mul]
      omega

end PppAmb
