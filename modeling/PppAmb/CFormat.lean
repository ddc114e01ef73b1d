import Mathlib.Data.Rat.Floor
import PppAmb.Calendar
import PppAmb.CSearch

/-!
# Formatted Output in the Manner of the C Library

The conversions `%u`, `%d` and `%.Nf` of `printf`, and `snprintf`. A floating-point argument is
given as the rational number it stands for; like the C library, `fixed` rounds its exact
value to the nearest decimal and a tie to the even one.
-/

namespace PppAmb

/-- The nearest natural number to a rational that is not negative, the even one on a
tie. -/
def roundHalfEven (q : ℚ) : ℕ :=
  let n := ⌊q⌋.toNat
  let r := q - n
  if r < 1 / 2 then n else if 1 / 2 < r then n + 1 else n + n % 2

/-- The last `width` digits of a number. -/
def lastDigits (width n : ℕ) : Bytes :=
  (List.range width).reverse.map fun i => digit (n / 10 ^ i)

/-- `%u`. -/
def unsigned (n : ℕ) : Bytes :=
  ascii (toString n)

/-- `%d`. -/
def signed (z : Int) : Bytes :=
  (if z < 0 then [ch '-'] else []) ++ unsigned z.natAbs

/-- `%.Nf`. -/
def fixed (digits : ℕ) (q : ℚ) : Bytes :=
  let n := roundHalfEven (|q| * 10 ^ digits)
  (if q < 0 then ascii "-" else []) ++ unsigned (n / 10 ^ digits) ++ ascii "."
    ++ lastDigits digits n

example : fixed 2 (-5 / 1000) = ascii "-0.00" ∧ fixed 1 (2505 / 100) = ascii "25.0" := by
  decide +kernel

/-- `snprintf` of a text into an array of `size > 0` bytes. -/
def snprintf (text : Bytes) (size : ℕ) : Bytes :=
  strlcpy text size

end PppAmb
