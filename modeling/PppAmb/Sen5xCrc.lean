import Mathlib.Algebra.Field.ZMod
import PppAmb.PolyCode
import PppAmb.Sen5xFrame

/-!
# What the CRC of the SEN5x Detects

`sen5x_crc8` of `main/sensors.c` as a shift register over the field of two elements: its feedback
belongs to the generator `X ^ 8 + X ^ 5 + X ^ 4 + 1`, and it is fed with the bytes of the message,
the most significant bit first. An error is given by the bits that are flipped in the message and
in the CRC behind it.

## Main results

* `detected_iff`: an error is detected exactly when the generator does not divide it.
* `sen5x_crc8_detects`: every burst of at most eight bits and every odd number of flipped bits is
  detected, and the CRC is affine.
* `corrupted_reply_refused`: a reply that is hit by such an error anywhere is not taken for a
  measurement, so that `sensors_read` does not return `ESP_OK` for it (`reply_ne_hit_of_ok`).
-/

namespace PppAmb

open Polynomial

/-! ### Bits -/

/-- A bit of a byte, counted from the most significant one. -/
def bitAt (b : UInt8) (i : ℕ) : ZMod 2 :=
  if b.toBitVec.getMsbD i then 1 else 0

/-- The bits of a byte, the most significant one first. -/
def bitsOf (b : UInt8) : List (ZMod 2) :=
  (List.range 8).map (bitAt b)

/-- The bits of a byte string. -/
def bits (s : Bytes) : List (ZMod 2) :=
  s.flatMap bitsOf

/-- The exclusive or of two byte strings. -/
def xorBytes (s t : Bytes) : Bytes :=
  List.zipWith (· ^^^ ·) s t

@[simp] theorem length_bitsOf (b : UInt8) : (bitsOf b).length = 8 := by
  simp [bitsOf]

theorem bitAt_xor (a b : UInt8) (i : ℕ) : bitAt (a ^^^ b) i = bitAt a i + bitAt b i := by
  rw [bitAt, bitAt, bitAt, UInt8.toBitVec_xor, BitVec.getMsbD_xor]
  cases a.toBitVec.getMsbD i <;> cases b.toBitVec.getMsbD i <;> rfl

theorem bitsOf_xor (a b : UInt8) : bitsOf (a ^^^ b) = addWords (bitsOf a) (bitsOf b) := by
  rw [bitsOf, bitsOf, bitsOf, addWords, List.zipWith_map, List.zipWith_self]
  exact List.map_congr_left fun i _ => bitAt_xor a b i

theorem bitAt_eq_one_iff {b : UInt8} {i : ℕ} : bitAt b i = 1 ↔ b.toBitVec.getMsbD i = true := by
  rw [bitAt]
  split <;> simp_all

theorem bitsOf_inj {a b : UInt8} (h : bitsOf a = bitsOf b) : a = b := by
  refine UInt8.toBitVec_inj.mp (BitVec.eq_of_getMsbD_eq fun i hi => ?_)
  have hbit : bitAt a i = bitAt b i := List.map_inj_left.mp h i (List.mem_range.mpr hi)
  rw [Bool.eq_iff_iff, ← bitAt_eq_one_iff, ← bitAt_eq_one_iff, hbit]

/-- A shift moves every bit by one place. -/
theorem bitAt_shiftLeft (c : UInt8) (i : ℕ) : bitAt (c <<< 1) i = bitAt c (i + 1) := by
  have hshift : (c <<< 1).toBitVec = c.toBitVec <<< 1 := UInt8.toBitVec_shiftLeft c 1
  rw [bitAt, bitAt, hshift, BitVec.getMsbD_shiftLeft]

theorem bitsOf_shiftLeft (c : UInt8) : bitsOf (c <<< 1) = (bitsOf c).tail ++ [0] := by
  have hlast : bitAt c 8 = 0 := by
    rw [bitAt, BitVec.getMsbD_of_ge _ _ (le_refl 8)]
    rfl
  have hrange : (List.range 8).map (· + 1) = (List.range 8).tail ++ [8] := rfl
  calc bitsOf (c <<< 1)
    _ = (List.range 8).map (fun i => bitAt c (i + 1)) :=
        List.map_congr_left fun i _ => bitAt_shiftLeft c i
    _ = ((List.range 8).map (· + 1)).map (bitAt c) := by rw [List.map_map]; rfl
    _ = (bitsOf c).tail ++ [0] := by
        rw [hrange, List.map_append, List.map_tail, List.map_singleton, hlast, bitsOf]

/-! ### The CRC as a shift register -/

/-- The bit that `crc & 0x80` tests. -/
theorem and_0x80_ne_zero_iff (c : UInt8) : c &&& 0x80 ≠ 0 ↔ c.toBitVec.getMsbD 0 = true := by
  have hand : (c &&& 0x80).toBitVec = c.toBitVec &&& BitVec.twoPow 8 7 := rfl
  rw [Ne, ← UInt8.toBitVec_inj, hand, BitVec.and_twoPow, BitVec.getMsbD_eq_getLsbD]
  cases c.toBitVec.getLsbD 7 <;> simp

/-- One bit of the CRC is one shift of the register. -/
theorem bitsOf_crcBit (c : UInt8) : bitsOf (crcBit c) = shiftStep (bitsOf 0x31) (bitsOf c) := by
  have hcons : bitsOf c = bitAt c 0 :: (bitsOf c).tail := rfl
  rw [hcons, shiftStep, ← bitsOf_shiftLeft, crcBit]
  split
  · rename_i hbit
    have hone : bitAt c 0 = 1 := if_pos ((and_0x80_ne_zero_iff c).mp hbit)
    have htaps : (bitsOf 0x31).map (1 * ·) = bitsOf 0x31 := by simp
    rw [hone, htaps, bitsOf_xor]
  · rename_i hbit
    have hzero : bitAt c 0 = 0 := if_neg (mt (and_0x80_ne_zero_iff c).mpr hbit)
    have htaps : (bitsOf 0x31).map (0 * ·) = bitsOf 0 := rfl
    rw [hzero, htaps, ← bitsOf_xor, UInt8.xor_zero]

/-- A byte of the message is a word for the register. -/
theorem bitsOf_crcByte (crc d : UInt8) :
    bitsOf (Nat.iterate crcBit 8 (crc ^^^ d)) = feed (bitsOf 0x31) (bitsOf crc) (bitsOf d) := by
  have hstep : Function.Semiconj bitsOf crcBit (shiftStep (bitsOf 0x31)) := bitsOf_crcBit
  rw [feed, length_bitsOf, ← bitsOf_xor]
  exact hstep.iterate_right 8 (crc ^^^ d)

/-- **The CRC** is what the register holds behind the bytes, if it starts with ones. -/
theorem bitsOf_sen5x_crc8 (data : Bytes) :
    bitsOf (sen5x_crc8 data) = register (bitsOf 0x31) (bitsOf 0xFF) (data.map bitsOf) := by
  rw [sen5x_crc8]
  generalize (0xFF : UInt8) = crc
  induction data generalizing crc with
  | nil => rfl
  | cons d data ih =>
      rw [List.foldl_cons, ih, bitsOf_crcByte, List.map_cons, register_cons]

/-! ### Detection -/

/-- What arrives if the bits of `e` are flipped in the data and in the CRC behind it. -/
def arrived (data e : Bytes) : Bytes :=
  xorBytes (data ++ [sen5x_crc8 data]) e

/-- The CRC of the received data differs from the received CRC. -/
def Detected (data e : Bytes) : Prop :=
  (arrived data e).getLast? ≠ some (sen5x_crc8 (arrived data e).dropLast)

/-- The polynomial of the code. -/
noncomputable def crcPoly : (ZMod 2)[X] :=
  generator (bitsOf 0x31)

/-- The data and the CRC arrive with the errors of their own. -/
theorem arrived_snoc {data e : Bytes} (h : data.length = e.length) (c : UInt8) :
    arrived data (e ++ [c]) = xorBytes data e ++ [sen5x_crc8 data ^^^ c] := by
  rw [arrived, xorBytes, List.zipWith_append h, List.zipWith_cons_cons, List.zipWith_nil_left,
    xorBytes]

theorem detected_snoc {data e : Bytes} (h : data.length = e.length) (c : UInt8) :
    Detected data (e ++ [c]) ↔ sen5x_crc8 (xorBytes data e) ≠ sen5x_crc8 data ^^^ c := by
  rw [Detected, arrived_snoc h, List.getLast?_concat, List.dropLast_concat, Ne, Option.some.injEq,
    eq_comm]

theorem map_bitsOf_xorBytes (s t : Bytes) :
    (xorBytes s t).map bitsOf = List.zipWith addWords (s.map bitsOf) (t.map bitsOf) := by
  rw [xorBytes, List.map_zipWith, List.zipWith_map]
  simp only [bitsOf_xor]

theorem bits_snoc (e : Bytes) (c : UInt8) :
    bits (e ++ [c]) = (e.map bitsOf).flatten ++ bitsOf c := by
  simp [bits, List.flatMap_def]

/-- The bits of a byte are as many as the taps. -/
theorem length_map_bitsOf (s : Bytes) : ∀ w ∈ s.map bitsOf, w.length = (bitsOf 0x31).length := by
  simp

/-- **Detection.** An error is detected exactly when the generator does not divide it. -/
theorem detected_iff {data e : Bytes} (h : e.length = data.length + 1) :
    Detected data e ↔ ¬ crcPoly ∣ wordPoly (bits e) := by
  obtain rfl | ⟨e, c, rfl⟩ := List.eq_nil_or_concat' e
  · simp at h
  · have hlen : data.length = e.length := by simpa using h.symm
    have hunnoticed : register (bitsOf 0x31) (bitsOf 0xFF)
          (List.zipWith addWords (data.map bitsOf) (e.map bitsOf))
          = addWords (register (bitsOf 0x31) (bitsOf 0xFF) (data.map bitsOf)) (bitsOf c) ↔
        generator (bitsOf 0x31) ∣ wordPoly (e.map bitsOf).flatten * X ^ (bitsOf 0x31).length
          - wordPoly (bitsOf c) :=
      register_add_eq_iff rfl (length_map_bitsOf data) (length_map_bitsOf e) (by simpa using hlen)
        (by simp)
    -- in characteristic two the CRC may as well be added to the message
    rw [CharTwo.sub_eq_add, ← map_bitsOf_xorBytes, ← bitsOf_sen5x_crc8, ← bitsOf_sen5x_crc8,
      ← bitsOf_xor] at hunnoticed
    rw [detected_snoc hlen, bits_snoc, wordPoly_append, length_bitsOf, not_iff_not, crcPoly]
    exact ⟨fun heq => hunnoticed.mp (congrArg bitsOf heq),
      fun hdvd => bitsOf_inj (hunnoticed.mpr hdvd)⟩

/-! ### Bursts and odd errors -/

theorem crcPoly_eq : crcPoly = X ^ 8 + X ^ 5 + X ^ 4 + 1 := by
  have htaps : bitsOf 0x31 = [0, 0, 1, 1, 0, 0, 0, 1] := rfl
  have hpoly : wordPoly (bitsOf 0x31) = X ^ 5 + X ^ 4 + 1 := by
    rw [htaps]
    simp [add_assoc]
  rw [crcPoly, generator, length_bitsOf, hpoly, CharTwo.sub_eq_add, add_assoc, add_assoc, add_assoc]

theorem coeff_zero_crcPoly : crcPoly.coeff 0 ≠ 0 := by
  simp [crcPoly_eq]

theorem eval_one_crcPoly : crcPoly.eval 1 = 0 := by
  rw [crcPoly_eq]
  simp
  rfl

theorem natDegree_crcPoly : crcPoly.natDegree = 8 := by
  rw [crcPoly, natDegree_generator, length_bitsOf]

/-- A byte that is not zero has a bit that is not. -/
theorem exists_bit_ne_zero {e : Bytes} (h : ∃ b ∈ e, b ≠ 0) : ∃ a ∈ bits e, a ≠ 0 := by
  obtain ⟨b, hb, hne⟩ := h
  by_contra hzero
  have hbits : ∀ a ∈ bitsOf b, a = 0 := by
    intro a ha
    by_contra hane
    exact hzero ⟨a, List.mem_flatMap.mpr ⟨b, hb, ha⟩, hane⟩
  have hb0 : bitsOf b = bitsOf 0 := List.eq_replicate_iff.mpr ⟨length_bitsOf b, hbits⟩
  exact hne (bitsOf_inj hb0)

theorem sum_eq_count (s : List (ZMod 2)) : s.sum = (s.count 1 : ℕ) := by
  induction s with
  | nil => rfl
  | cons a s ih =>
      have hbit : ∀ a : ZMod 2, a = 0 ∨ a = 1 := by decide
      rcases hbit a with rfl | rfl
      · rw [List.sum_cons, ih, List.count_cons_of_ne zero_ne_one, zero_add]
      · rw [List.sum_cons, ih, List.count_cons_self, Nat.cast_succ, add_comm]

/-- An error of the kinds that the CRC is meant for: not zero, but confined to eight consecutive
bits, or with an odd number of flipped bits. -/
def Covered (e : Bytes) : Prop :=
  (IsBurst 8 (bits e) ∧ ∃ b ∈ e, b ≠ 0) ∨ Odd ((bits e).count 1)

theorem not_dvd_of_covered {e : Bytes} (h : Covered e) : ¬ crcPoly ∣ wordPoly (bits e) := by
  rcases h with ⟨hburst, hne⟩ | hodd
  · exact not_dvd_of_isBurst coeff_zero_crcPoly natDegree_crcPoly.ge hburst (exists_bit_ne_zero hne)
  · refine not_dvd_of_sum_ne_zero eval_one_crcPoly ?_
    rw [sum_eq_count]
    exact ZMod.natCast_ne_zero_iff_odd.mpr hodd

theorem length_xorBytes {a b : Bytes} (h : a.length = b.length) :
    (xorBytes a b).length = b.length := by
  rw [xorBytes, List.length_zipWith, h, Nat.min_self]

/-- The register is linear in its first contents and the bytes together. -/
theorem register_xorBytes {a b : Bytes} (h : a.length = b.length) {reg reg' : List (ZMod 2)}
    (hreg : reg.length = 8) (hreg' : reg'.length = 8) :
    register (bitsOf 0x31) (addWords reg reg') ((xorBytes a b).map bitsOf)
      = addWords (register (bitsOf 0x31) reg (a.map bitsOf))
        (register (bitsOf 0x31) reg' (b.map bitsOf)) := by
  rw [map_bitsOf_xorBytes]
  exact register_addWords hreg hreg' (length_map_bitsOf a) (length_map_bitsOf b) (by simpa using h)

/-- The CRC is affine: the ones it starts with are added an odd number of times. -/
theorem sen5x_crc8_xor_xor {a b c : Bytes} (hab : a.length = b.length) (hbc : b.length = c.length) :
    sen5x_crc8 (xorBytes (xorBytes a b) c) = sen5x_crc8 a ^^^ sen5x_crc8 b ^^^ sen5x_crc8 c := by
  have hones : bitsOf 0xFF = addWords (addWords (bitsOf 0xFF) (bitsOf 0xFF)) (bitsOf 0xFF) := rfl
  have habc : (xorBytes a b).length = c.length := (length_xorBytes hab).trans hbc
  apply bitsOf_inj
  rw [bitsOf_xor, bitsOf_xor, bitsOf_sen5x_crc8 a, bitsOf_sen5x_crc8 b, bitsOf_sen5x_crc8 c,
    ← register_xorBytes hab rfl rfl, ← register_xorBytes habc rfl rfl, ← hones, bitsOf_sen5x_crc8]

/-- **What the CRC detects.** For data of any length with its CRC behind it: every error that is
not zero and confined to eight consecutive bits, and every error that flips an odd number of bits,
wherever it stands in the data and the CRC, makes the CRC of the received data differ from the
received CRC; and the CRC is affine over the exclusive or. -/
theorem sen5x_crc8_detects :
    (∀ data e : Bytes, e.length = data.length + 1 → (∃ b ∈ e, b ≠ 0) → IsBurst 8 (bits e) →
      Detected data e) ∧
    (∀ data e : Bytes, e.length = data.length + 1 → Odd ((bits e).count 1) → Detected data e) ∧
    ∀ a b c : Bytes, a.length = b.length → b.length = c.length →
      sen5x_crc8 (xorBytes (xorBytes a b) c) = sen5x_crc8 a ^^^ sen5x_crc8 b ^^^ sen5x_crc8 c := by
  refine ⟨fun data e hlen hne hburst => ?_, fun data e hlen hodd => ?_, fun a b c hab hbc => ?_⟩
  · exact (detected_iff hlen).mpr (not_dvd_of_covered (Or.inl ⟨hburst, hne⟩))
  · exact (detected_iff hlen).mpr (not_dvd_of_covered (Or.inr hodd))
  · exact sen5x_crc8_xor_xor hab hbc

/-- Eight flipped bits, half of them in the data and half of them in the CRC. -/
theorem isBurst_straddling : IsBurst 8 (bits [0x00, 0x0F, 0xF0]) := by
  refine ⟨12, fun j a hj ha => ?_⟩
  have hlt : j < 24 := (List.getElem?_eq_some_iff.mp hj).1
  have hplaces : ∀ j < 24, ∀ a : ZMod 2, (bits [0x00, 0x0F, 0xF0])[j]? = some a → a ≠ 0 →
      12 ≤ j ∧ j < 12 + 8 := by decide
  exact hplaces j hlt a hj ha

theorem sen5x_crc8_detects_beef :
    Detected [0xBE, 0xEF] [0x00, 0x0F, 0xF0] ∧ Detected [0xBE, 0xEF] [0x01, 0x00, 0x00] ∧
      sen5x_crc8 (xorBytes (xorBytes [0xBE] [0xEF]) [0x92])
        = sen5x_crc8 [0xBE] ^^^ sen5x_crc8 [0xEF] ^^^ sen5x_crc8 [0x92] := by
  obtain ⟨hburst, hodd, haffine⟩ := sen5x_crc8_detects
  refine ⟨hburst _ _ rfl ⟨0x0F, by simp⟩ isBurst_straddling, hodd _ _ rfl ?_, haffine _ _ _ rfl rfl⟩
  decide

/-! ### Replies that are hit -/

/-- The reply with the given bits flipped. -/
def Reply.hit {n : ℕ} (data : Reply n) (e : Fin (3 * n) → UInt8) : Reply n :=
  Vector.ofFn fun j => data.get j ^^^ e j

/-- The part of an error that hits a word and its CRC. -/
def errorAt {n : ℕ} (e : Fin (3 * n) → UInt8) (i : Fin n) : Bytes :=
  [e ⟨3 * i, high_lt i⟩, e ⟨3 * i + 1, low_lt i⟩, e ⟨3 * i + 2, crc_lt i⟩]

section Hit

variable {n : ℕ} (words : Fin n → UInt16) (e : Fin (3 * n) → UInt8) (i : Fin n)

theorem get_hit (data : Reply n) (j : Fin (3 * n)) : (data.hit e).get j = data.get j ^^^ e j := by
  change (Vector.ofFn fun j => data.get j ^^^ e j)[j.val] = _
  rw [Vector.getElem_ofFn]

/-- The check of a word notices the error that hits it. -/
theorem crcRight_hit : ((Reply.encode words).hit e).crcRight i = true ↔
    ¬ Detected [(words i >>> 8).toUInt8, (words i).toUInt8] (errorAt e i) := by
  have hsplit : errorAt e i = [e ⟨3 * i, high_lt i⟩, e ⟨3 * i + 1, low_lt i⟩]
      ++ [e ⟨3 * i + 2, crc_lt i⟩] := rfl
  have hlen : [(words i >>> 8).toUInt8, (words i).toUInt8].length
      = [e ⟨3 * i, high_lt i⟩, e ⟨3 * i + 1, low_lt i⟩].length := rfl
  rw [hsplit, detected_snoc hlen, not_not, Reply.crcRight, Reply.bytes, get_hit, get_hit, get_hit,
    encode_high, encode_low, encode_crc, decide_eq_true_eq, xorBytes, List.zipWith_cons_cons,
    List.zipWith_cons_cons, List.zipWith_nil_left]

/-- An error is made up of what hits each word. -/
theorem ofFn_errorAt : List.ofFn e = (List.ofFn (errorAt e)).flatten := by
  rw [List.ofFn_mul']
  rfl

theorem errorAt_isInfix : errorAt e i <:+: List.ofFn e := by
  rw [ofFn_errorAt]
  exact List.infix_of_mem_flatten (List.mem_ofFn.mpr ⟨i, rfl⟩)

theorem even_bits_flatten {parts : List Bytes} (h : ∀ part ∈ parts, Even ((bits part).count 1)) :
    Even ((bits parts.flatten).count 1) := by
  induction parts with
  | nil => exact ⟨0, rfl⟩
  | cons part parts ih =>
      obtain ⟨hpart, hparts⟩ := List.forall_mem_cons.mp h
      rw [List.flatten_cons, bits, List.flatMap_append, List.count_append]
      exact hpart.add (ih hparts)

/-- If an error is covered, then so is what hits some word. -/
theorem exists_covered_errorAt {e : Fin (3 * n) → UInt8} (h : Covered (List.ofFn e)) :
    ∃ i, Covered (errorAt e i) := by
  rcases h with ⟨hburst, b, hb, hne⟩ | hodd
  · rw [ofFn_errorAt, List.mem_flatten] at hb
    obtain ⟨part, hpart, hb⟩ := hb
    obtain ⟨i, rfl⟩ := List.mem_ofFn.mp hpart
    exact ⟨i, Or.inl ⟨hburst.part ((errorAt_isInfix e i).flatMap bitsOf), b, hb, hne⟩⟩
  · by_contra hnone
    have heven : ∀ part ∈ List.ofFn (errorAt e), Even ((bits part).count 1) := by
      intro part hpart
      obtain ⟨i, rfl⟩ := List.mem_ofFn.mp hpart
      rw [← Nat.not_odd_iff_even]
      exact fun hi => hnone ⟨i, Or.inr hi⟩
    rw [ofFn_errorAt] at hodd
    exact Nat.not_even_iff_odd.mpr hodd (even_bits_flatten heven)

/-- **Corrupted replies.** A reply of words and their CRCs that is hit by a burst of at most eight
bits, or in an odd number of bits, is not a checked one. -/
theorem not_checked_hit {e : Fin (3 * n) → UInt8} (h : Covered (List.ofFn e)) :
    ¬ ((Reply.encode words).hit e).Checked := by
  obtain ⟨i, hi⟩ := exists_covered_errorAt h
  intro hchecked
  have hlen : (errorAt e i).length = [(words i >>> 8).toUInt8, (words i).toUInt8].length + 1 := rfl
  exact (crcRight_hit words e i).mp (hchecked i) ((detected_iff hlen).mpr (not_dvd_of_covered hi))

end Hit

/-- The words of such a frame are not taken for a measurement, and nothing is written. -/
theorem corrupted_reply_refused (a : Arith) (words : Fin 8 → UInt16) {e : Fin (3 * 8) → UInt8}
    (h : Covered (List.ofFn e)) (out : Sen5x) :
    sen5x_decode_measurement_out a ((Reply.encode words).hit e) out = (0, out) :=
  decode_unchecked a (not_checked_hit words h) out

/-- **Readings.** A call that returns `ESP_OK` has not ended with such a reply of the SEN5x. -/
theorem reply_ne_hit_of_ok {B : I2c} {a : Arith} {out data : Option SensorData} {k k' : ℕ}
    (hread : sensors_read B a out k = (ESP_OK, data, k')) (words : Fin 8 → UInt16)
    {e : Fin (3 * 8) → UInt8} (h : Covered (List.ofFn e)) :
    B.reply (k' - 1) .sen5x 8 ≠ (Reply.encode words).hit e := by
  obtain ⟨-, j, -, horder, -, rfl⟩ := sensors_read_ok_iff.mp hread
  intro hreply
  exact not_checked_hit words h (hreply ▸ horder.checked)

end PppAmb
