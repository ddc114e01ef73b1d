import Mathlib.Data.Fin.VecNotation
import PppAmb.Sensors

/-!
# Frames of the SEN5x

The SEN5x sends its eight quantities as big-endian words of 16 bits, each followed by its CRC:
four concentrations without a sign, then humidity, temperature and the two gas indices, which
are signed. This module encodes raw values in this format and compares what
`sen5x_decode_measurement` makes of the frame with the values.

## Main results

* `sen5x_decode_measurement_out_eq`: what the function returns and what it writes.
* `sen5x_decode_iff`: a frame is decoded to its values exactly when none of the signed ones is
  negative, and a frame with a wrong CRC leaves the outputs alone.
* `frost_decoded_as_heat`: -1 °C is decoded as 326.68 °C.
-/

namespace PppAmb

/-! ### Encoding -/

/-- The byte with number `j` of a reply in which the given words are followed by their CRCs. -/
def wireByte {n : ℕ} (words : Fin n → UInt16) (j : Fin (3 * n)) : UInt8 :=
  let w := words ⟨j / 3, by omega⟩
  let high := (w >>> 8).toUInt8
  let low := w.toUInt8
  if j.val % 3 = 0 then high else if j.val % 3 = 1 then low else sen5x_crc8 [high, low]

/-- The reply that carries the given words. -/
def Reply.encode {n : ℕ} (words : Fin n → UInt16) : Reply n :=
  Vector.ofFn (wireByte words)

section Encode

variable {n : ℕ} (words : Fin n → UInt16) (i : Fin n)

theorem get_encode (j : Fin (3 * n)) : (Reply.encode words).get j = wireByte words j := by
  change (Vector.ofFn (wireByte words))[j.val] = _
  rw [Vector.getElem_ofFn]

/-- The places of the two bytes of a word and of its CRC. -/
theorem high_lt : 3 * i.val < 3 * n := by
  omega

theorem low_lt : 3 * i.val + 1 < 3 * n := by
  omega

theorem crc_lt : 3 * i.val + 2 < 3 * n := by
  omega

theorem encode_high :
    (Reply.encode words).get ⟨3 * i, high_lt i⟩ = (words i >>> 8).toUInt8 := by
  have hdiv : 3 * i.val / 3 = i := by omega
  simp [get_encode, wireByte, hdiv]

theorem encode_low : (Reply.encode words).get ⟨3 * i + 1, low_lt i⟩ = (words i).toUInt8 := by
  have hdiv : (3 * i.val + 1) / 3 = i := by omega
  have hmod : (3 * i.val + 1) % 3 = 1 := by omega
  simp [get_encode, wireByte, hdiv, hmod]

theorem encode_crc : (Reply.encode words).get ⟨3 * i + 2, crc_lt i⟩
    = sen5x_crc8 [(words i >>> 8).toUInt8, (words i).toUInt8] := by
  have hdiv : (3 * i.val + 2) / 3 = i := by omega
  have hmod : (3 * i.val + 2) % 3 = 2 := by omega
  simp [get_encode, wireByte, hdiv, hmod]

/-- A word is made up of its two bytes. -/
theorem word_of_bytes (w : UInt16) :
    (w >>> 8).toUInt8.toUInt16 <<< 8 ||| w.toUInt8.toUInt16 = w := by
  have hw : w.toNat < 2 ^ 16 := w.toNat_lt
  have hlow : w.toNat % 2 ^ 8 < 2 ^ 8 := Nat.mod_lt _ (by omega)
  have hhigh : (w >>> 8).toNat = w.toNat / 2 ^ 8 := by
    rw [UInt16.toNat_shiftRight, Nat.shiftRight_eq_div_pow]
    rfl
  apply UInt16.toNat_inj.mp
  rw [UInt16.toNat_or, UInt16.toNat_shiftLeft, UInt8.toNat_toUInt16, UInt8.toNat_toUInt16,
    UInt16.toNat_toUInt8, UInt16.toNat_toUInt8, hhigh]
  have hshift : (w.toNat / 2 ^ 8 % 2 ^ 8) <<< ((8 : UInt16).toNat % 16) % 2 ^ 16
      = (w.toNat / 2 ^ 8) <<< 8 := by
    change (w.toNat / 2 ^ 8 % 2 ^ 8) <<< 8 % 2 ^ 16 = _
    rw [Nat.shiftLeft_eq, Nat.shiftLeft_eq]
    omega
  rw [hshift, ← Nat.shiftLeft_add_eq_or_of_lt hlow, Nat.shiftLeft_eq]
  omega

/-- The words are read back. -/
theorem word_encode : (Reply.encode words).word i = words i := by
  rw [Reply.word, encode_high, encode_low, word_of_bytes]

/-- An encoded reply carries the right CRCs. -/
theorem checked_encode : (Reply.encode words).Checked := by
  intro i
  rw [Reply.crcRight, Reply.bytes, encode_high, encode_low, encode_crc, decide_eq_true_eq]

end Encode

/-- The raw values of a measurement. -/
structure Sen5xRaw where
  pm1 : UInt16
  pm25 : UInt16
  pm4 : UInt16
  pm10 : UInt16
  rh : Int16
  temp : Int16
  voc_index : Int16
  nox_index : Int16

/-- The words of the frame. -/
def Sen5xRaw.words (raw : Sen5xRaw) : Fin 8 → UInt16 :=
  ![raw.pm1, raw.pm25, raw.pm4, raw.pm10, raw.rh.toUInt16, raw.temp.toUInt16,
    raw.voc_index.toUInt16, raw.nox_index.toUInt16]

/-- The frame of 24 bytes. -/
def Sen5xRaw.frame (raw : Sen5xRaw) : Reply 8 :=
  .encode raw.words

/-- What is measured: each value divided by its scale. -/
def Sen5xRaw.measured (raw : Sen5xRaw) : Sen5x where
  pm1 := raw.pm1.toNat / 10
  pm25 := raw.pm25.toNat / 10
  pm4 := raw.pm4.toNat / 10
  pm10 := raw.pm10.toNat / 10
  rh := raw.rh.toInt / 100
  temp := raw.temp.toInt / 200
  voc_index := raw.voc_index.toInt / 10
  nox_index := raw.nox_index.toInt / 10

/-! ### Decoding -/

/-- The loop of `sen5x_decode_measurement` from word `i` on, with the words that are left and
the array `values` so far; `none` is `return 0`. -/
def decodeWords (buf : Reply 8) : List (Fin 8) → List UInt16 → Option (List UInt16)
  | [], values => some values
  | i :: is, values => if buf.crcRight i then decodeWords buf is (values ++ [buf.word i]) else none

/-- `sen5x_decode_measurement` with what its eight pointers point to: what it returns, and what
they point to then. -/
def sen5x_decode_measurement_out (a : Arith) (buf : Reply 8) (out : Sen5x) : ℕ × Sen5x :=
  match decodeWords buf (List.finRange 8) [] with
  | none => (0, out)
  | some values =>
      let quotient (i : ℕ) (scale : ℚ) := a.float ((values[i]?.getD 0).toNat / scale)
      (1, ⟨quotient 0 10, quotient 1 10, quotient 2 10, quotient 3 10, quotient 4 100,
        quotient 5 200, quotient 6 10, quotient 7 10⟩)

/-- The loop ends with all words, or at a wrong CRC. -/
theorem decodeWords_eq (buf : Reply 8) (is : List (Fin 8)) (values : List UInt16) :
    decodeWords buf is values
      = if is.all buf.crcRight then some (values ++ is.map buf.word) else none := by
  induction is generalizing values with
  | nil => simp [decodeWords]
  | cons i is ih =>
      rw [decodeWords, List.all_cons]
      by_cases hi : buf.crcRight i = true
      · rw [if_pos hi, ih, hi, Bool.true_and, List.map_cons, List.append_assoc]
        rfl
      · rw [if_neg hi, if_neg (by simp [hi])]

/-- The outputs are written all together, or not at all. -/
theorem sen5x_decode_measurement_out_eq (a : Arith) (buf : Reply 8) (out : Sen5x) :
    sen5x_decode_measurement_out a buf out
      = match sen5x_decode_measurement a buf with
        | none => (0, out)
        | some sen => (1, sen) := by
  rw [sen5x_decode_measurement_out, decodeWords_eq, sen5x_decode_measurement]
  by_cases hall : (List.finRange 8).all buf.crcRight = true
  · rw [if_pos hall, if_pos hall]
    rfl
  · rw [if_neg hall, if_neg hall]

/-- A reply with a wrong CRC leaves the outputs alone. -/
theorem decode_unchecked (a : Arith) {buf : Reply 8} (h : ¬ buf.Checked) (out : Sen5x) :
    sen5x_decode_measurement_out a buf out = (0, out) := by
  have hnone : sen5x_decode_measurement a buf = none := by
    rw [Option.eq_none_iff_forall_ne_some]
    exact fun sen hsome => h (sen5x_decode_measurement_eq_some.mp hsome).1
  rw [sen5x_decode_measurement_out_eq, hnone]

/-- None of the signed values is negative. -/
def Sen5xRaw.NoneNegative (raw : Sen5xRaw) : Prop :=
  0 ≤ raw.rh ∧ 0 ≤ raw.temp ∧ 0 ≤ raw.voc_index ∧ 0 ≤ raw.nox_index

/-- A signed value and the word it is sent as are the same number unless it is negative. -/
theorem toNat_toUInt16_eq_iff (v : Int16) : ((v.toUInt16.toNat : ℕ) : Int) = v.toInt ↔ 0 ≤ v := by
  have hrange := v.toInt_lt
  have hnat : v.toUInt16.toNat = v.toBitVec.toNat := rfl
  have hint : v.toInt = v.toBitVec.toInt := rfl
  have hcond := BitVec.toInt_eq_toNat_cond v.toBitVec
  rw [Int16.le_iff_toInt_le, Int16.toInt_zero, hnat, hint, hcond]
  split <;> omega

/-- The quotients of a signed value and of its word. -/
theorem quotient_eq_iff (v : Int16) {scale : ℚ} (hscale : scale ≠ 0) :
    (v.toUInt16.toNat : ℚ) / scale = (v.toInt : ℚ) / scale ↔ 0 ≤ v := by
  rw [div_left_inj' hscale, ← toNat_toUInt16_eq_iff]
  exact_mod_cast Iff.rfl

/-- The words of the frame, divided by their scales. -/
theorem ofReply_frame (raw : Sen5xRaw) : Sen5x.ofReply .exact raw.frame
    = ⟨raw.pm1.toNat / 10, raw.pm25.toNat / 10, raw.pm4.toNat / 10, raw.pm10.toNat / 10,
      raw.rh.toUInt16.toNat / 100, raw.temp.toUInt16.toNat / 200, raw.voc_index.toUInt16.toNat / 10,
      raw.nox_index.toUInt16.toNat / 10⟩ := by
  simp only [Sen5x.ofReply, Sen5xRaw.frame, word_encode]
  rfl

/-- The frame of any raw values is decoded. -/
theorem decode_frame (raw : Sen5xRaw) (out : Sen5x) :
    sen5x_decode_measurement_out .exact raw.frame out = (1, .ofReply .exact raw.frame) := by
  have hsome : sen5x_decode_measurement .exact raw.frame = some (.ofReply .exact raw.frame) :=
    sen5x_decode_measurement_eq_some.mpr ⟨checked_encode raw.words, rfl⟩
  rw [sen5x_decode_measurement_out_eq, hsome]

/-- **Decoding.** For all raw values, the frame that carries them is decoded, and each quantity
is its value divided by its scale if and only if none of the signed values is negative; and no
frame with a wrong CRC byte changes the outputs. -/
theorem sen5x_decode_iff (raw : Sen5xRaw) (out : Sen5x) (buf : Reply 8) :
    (sen5x_decode_measurement_out .exact raw.frame out).1 = 1 ∧
      (sen5x_decode_measurement_out .exact raw.frame out = (1, raw.measured) ↔
        raw.NoneNegative) ∧
      (¬ buf.Checked → sen5x_decode_measurement_out .exact buf out = (0, out)) := by
  refine ⟨by rw [decode_frame], ?_, fun hwrong => decode_unchecked .exact hwrong out⟩
  rw [decode_frame, Prod.mk.injEq, ofReply_frame, Sen5xRaw.measured, Sen5x.mk.injEq,
    Sen5xRaw.NoneNegative, quotient_eq_iff _ (by norm_num), quotient_eq_iff _ (by norm_num),
    quotient_eq_iff _ (by norm_num), quotient_eq_iff _ (by norm_num)]
  simp only [true_and]

/-- A frosty day: -1 °C at 50 % humidity. -/
def frost : Sen5xRaw :=
  ⟨10, 20, 30, 40, 5000, -200, 1000, 10⟩

/-- **Frost is decoded as heat.** The temperature of -1 °C comes out as 326.68 °C. -/
theorem frost_decoded_as_heat :
    ¬ ∀ (raw : Sen5xRaw) (out : Sen5x),
      sen5x_decode_measurement_out .exact raw.frame out = (1, raw.measured) := by
  intro h
  have htemp := congrArg (fun r => r.2.temp) (h frost frost.measured)
  have hout : (sen5x_decode_measurement_out .exact frost.frame frost.measured).2.temp
      = 32668 / 100 := by
    rw [decode_frame, ofReply_frame]
    decide +kernel
  have hfrost : frost.measured.temp = -1 := by decide +kernel
  rw [hout, hfrost] at htemp
  norm_num at htemp

end PppAmb
