import Mathlib.Data.List.Basic
import Mathlib.Data.List.Infix
import Mathlib.Data.List.TakeWhile

/-!
# Byte Strings in the Manner of C

The program under study keeps its texts in fixed `char` arrays. This module is the
library of byte strings that the rest of the development is written over: a text is a
list of bytes, an array is a list of bytes of fixed length, and the C string held by an
array is what stands before its first NUL. Nothing here refers to the program.

## Main results

* `cString_of_take`: an array that starts with a text followed by a NUL holds the C
  string of this text.
* `length_memcpy`, `take_memcpy`: what a copy into the middle of an array does to its length
  and to the part it fills.
* `memcpy_terminated`: a copy behind a text extends the C string of the array.
* `foldl_collect`: a run that collects pieces of a stream holds the front of the stream.
-/

namespace PppAmb

/-- A text or the contents of a `char` array. -/
abbrev Bytes := List UInt8

/-- The bytes of an ASCII literal. -/
def ascii (s : String) : Bytes :=
  s.toList.map fun c => UInt8.ofNat c.toNat

/-- The byte of an ASCII character. -/
def ch (c : Char) : UInt8 :=
  UInt8.ofNat c.toNat

/-- No byte of the text is the terminator. -/
def NulFree (s : Bytes) : Prop :=
  ∀ b ∈ s, b ≠ 0

instance (s : Bytes) : Decidable (NulFree s) :=
  List.decidableBAll (fun b => b ≠ 0) s

theorem NulFree.append {s t : Bytes} (hs : NulFree s) (ht : NulFree t) :
    NulFree (s ++ t) := by
  intro b hb
  rcases List.mem_append.mp hb with h | h
  · exact hs b h
  · exact ht b h

theorem NulFree.take {s : Bytes} (hs : NulFree s) (n : ℕ) : NulFree (s.take n) :=
  fun b hb => hs b (List.mem_of_mem_take hb)

/-- The C string an array holds: the bytes before its first NUL. -/
def cString (buf : Bytes) : Bytes :=
  buf.takeWhile (· != 0)

/-- The C string of an array is NUL-free. -/
theorem nulFree_cString (buf : Bytes) : NulFree (cString buf) := by
  intro b hb
  simpa using List.mem_takeWhile_imp hb

/-- The C string read from a NUL-free text is the text. -/
theorem cString_eq_self {s : Bytes} (hs : NulFree s) : cString s = s := by
  refine List.takeWhile_eq_self_iff.mpr fun b hb => ?_
  simpa using hs b hb

/-- An array that starts with a NUL holds the empty string. -/
theorem cString_eq_nil_of_head {buf : Bytes} (h : buf[0]? = some 0) : cString buf = [] := by
  cases buf with
  | nil => rfl
  | cons b t =>
      obtain rfl : b = 0 := by simpa using h
      rfl

/-- An array that starts with a text followed by a NUL holds the same C string as the
text alone. -/
theorem cString_of_take {buf s : Bytes} (hbuf : buf.take s.length = s)
    (hnul : buf[s.length]? = some 0) : cString buf = cString s := by
  have hsplit : buf = s ++ buf.drop s.length := by
    conv_lhs => rw [← List.take_append_drop s.length buf, hbuf]
  have hdrop : (buf.drop s.length)[0]? = some 0 := by
    rw [List.getElem?_drop]
    simpa using hnul
  have htail : cString (buf.drop s.length) = [] := cString_eq_nil_of_head hdrop
  rw [hsplit, cString, List.takeWhile_append]
  split
  · rw [cString] at htail
    rw [htail, List.append_nil]
    rename_i hlen
    exact ((List.takeWhile_prefix _).eq_of_length hlen).symm
  · rfl

/-- The C string of a text whose first part is NUL-free starts with this part. -/
theorem cString_append {s : Bytes} (hs : NulFree s) (t : Bytes) :
    cString (s ++ t) = s ++ cString t := by
  refine List.takeWhile_append_of_pos fun b hb => ?_
  simpa using hs b hb

/-- A text that is passed as a C string: its bytes without the terminator. -/
structure CStr where
  bytes : Bytes
  nulFree : NulFree bytes

/-- `c_str()` of a text, as its receiver sees it. -/
def CStr.of (s : Bytes) : CStr :=
  ⟨cString s, nulFree_cString s⟩

/-- What stands in front of the first byte that is not passed over. -/
theorem takeWhile_append_cons {p : UInt8 → Bool} {c : UInt8} (hc : p c = false) (s t : Bytes) :
    (s ++ c :: t).takeWhile p = s.takeWhile p := by
  induction s with
  | nil => simp [hc]
  | cons d s ih =>
      rw [List.cons_append, List.takeWhile_cons, List.takeWhile_cons, ih]

/-- Two places of a text at which the same byte stands. -/
theorem append_cons_eq_append_cons {b : UInt8} {s s' t t' : Bytes}
    (h : s ++ b :: t = s' ++ b :: t') :
    (s = s' ∧ t = t') ∨ (∃ u, s = s' ++ b :: u ∧ t' = u ++ b :: t) ∨
      ∃ u, s' = s ++ b :: u ∧ t = u ++ b :: t' := by
  rcases List.append_eq_append_iff.mp h with ⟨u, hs, ht⟩ | ⟨u, hs, ht⟩
  · rcases u with _ | ⟨d, u⟩
    · exact Or.inl ⟨by simpa using hs.symm, (List.cons.inj ht).2⟩
    · obtain ⟨rfl, rfl⟩ := List.cons.inj ht
      exact Or.inr (Or.inr ⟨u, hs, rfl⟩)
  · rcases u with _ | ⟨d, u⟩
    · exact Or.inl ⟨by simpa using hs, (List.cons.inj ht).2.symm⟩
    · obtain ⟨rfl, rfl⟩ := List.cons.inj ht
      exact Or.inr (Or.inl ⟨u, hs, rfl⟩)

/-- Cutting a text before something is appended to it does not change the cut of the
whole. -/
theorem take_take_append (s t : Bytes) (n : ℕ) : (s.take n ++ t).take n = (s ++ t).take n := by
  rw [List.take_append, List.take_append, List.take_take, Nat.min_self, List.length_take]
  congr 2
  omega

/-! ### Writing into an array -/

/-- An array of `n` NUL bytes, as `memset` leaves it. -/
def zeroed (n : ℕ) : Bytes :=
  List.replicate n 0

@[simp] theorem length_zeroed (n : ℕ) : (zeroed n).length = n := by
  simp [zeroed]

@[simp] theorem cString_zeroed (n : ℕ) : cString (zeroed n) = [] := by
  cases n <;> rfl

/-- The array after `memcpy(buf + off, src, |src|)`. -/
def memcpy (buf : Bytes) (off : ℕ) (src : Bytes) : Bytes :=
  buf.take off ++ src ++ buf.drop (off + src.length)

/-- A copy that stays inside the array keeps its length. -/
theorem length_memcpy {buf src : Bytes} {off : ℕ} (h : off + src.length ≤ buf.length) :
    (memcpy buf off src).length = buf.length := by
  simp only [memcpy, List.length_append, List.length_take, List.length_drop]
  omega

/-- A copy extends the part of the array that precedes it. -/
theorem take_memcpy {buf src : Bytes} {off : ℕ} (h : off ≤ buf.length) :
    (memcpy buf off src).take (off + src.length) = buf.take off ++ src := by
  have hlen : (buf.take off ++ src).length = off + src.length := by
    rw [List.length_append, List.length_take]
    omega
  rw [memcpy, ← hlen, List.take_left]

/-- As much of a text as there is room for. -/
theorem take_room (data : Bytes) (room : ℕ) :
    data.take (if data.length < room then data.length else room) = data.take room := by
  split
  · rw [List.take_length, List.take_of_length_le (by omega)]
  · rfl

/-- A text that is extended as far as the array reaches. -/
theorem take_append_room {text : Bytes} (data : Bytes) {n : ℕ} (h : text.length ≤ n) :
    (text ++ data).take n = text ++ data.take (n - text.length) := by
  rw [List.take_append, List.take_of_length_le h]

/-- A copy behind the text of an array, with a terminator behind it. -/
theorem memcpy_terminated {buf text src : Bytes} (hbuf : buf.take text.length = text)
    (h : text.length + src.length < buf.length) :
    ((memcpy buf text.length src).set (text.length + src.length) 0).length = buf.length ∧
      ((memcpy buf text.length src).set (text.length + src.length) 0).take
        (text ++ src).length = text ++ src ∧
      ((memcpy buf text.length src).set (text.length + src.length) 0)[(text ++ src).length]?
        = some 0 := by
  have hlen : (memcpy buf text.length src).length = buf.length := length_memcpy (by omega)
  rw [List.length_append]
  refine ⟨by rw [List.length_set, hlen], ?_, ?_⟩
  · rw [List.take_set_of_le (le_refl _), take_memcpy (by omega), hbuf]
  · rw [List.getElem?_set_self (by omega)]

/-! ### Collecting a stream -/

/-- An array of `n` bytes that holds a text and NULs behind it. -/
def textArray (n : ℕ) (text : Bytes) : Bytes :=
  text ++ zeroed (n - text.length)

/-- A copy behind the text, with a terminator behind it. -/
theorem memcpy_textArray {n : ℕ} {text src : Bytes} (h : text.length + src.length < n) :
    (memcpy (textArray n text) text.length src).set (text.length + src.length) 0
      = textArray n (text ++ src) := by
  have hfront : (textArray n text).take text.length = text := List.take_left
  have hback : (textArray n text).drop (text.length + src.length)
      = zeroed (n - (text ++ src).length) := by
    rw [textArray, List.drop_append, zeroed, List.drop_replicate, List.drop_eq_nil_of_le (by omega),
      List.length_append, List.nil_append, zeroed]
    congr 1
    omega
  have hzeroed :
      (zeroed (n - (text ++ src).length)).set 0 0 = zeroed (n - (text ++ src).length) := by
    obtain ⟨k, hk⟩ : ∃ k, n - (text ++ src).length = k + 1 :=
      ⟨n - (text ++ src).length - 1, by rw [List.length_append]; omega⟩
    rw [hk]
    rfl
  rw [memcpy, hfront, hback, ← List.length_append, List.set_append_right _ _ (le_refl _),
    Nat.sub_self, hzeroed, textArray]

/-- A text is extended by what fits of a piece of the stream. -/
theorem take_piece {n k : ℕ} {text data : Bytes} (hroom : text.length < n)
    (hk : k = min data.length (n - 1 - text.length)) :
    (text ++ data).take (n - 1) = text ++ data.take k := by
  rw [take_append_room data (by omega), hk, min_comm, ← List.take_take, List.take_length]

/-- What fits of the piece is copied behind the text. -/
theorem memcpy_piece {n k : ℕ} {text data : Bytes} (hroom : text.length < n)
    (hk : k = min data.length (n - 1 - text.length)) :
    (memcpy (textArray n text) text.length (data.take k)).set (text.length + k) 0
        = textArray n ((text ++ data).take (n - 1)) ∧
      ((text ++ data).take (n - 1)).length = text.length + k := by
  have hlen : (data.take k).length = k := by
    rw [List.length_take]
    omega
  have hcopy := @memcpy_textArray n text (data.take k) (by omega)
  rw [hlen] at hcopy
  rw [take_piece hroom hk]
  exact ⟨hcopy, by rw [List.length_append, hlen]⟩

/-- **The collecting rule.** If every event brings some bytes and extends the text that is held by
them, up to a limit, then a run extends it by the bytes of all its events, up to the same limit. -/
theorem foldl_collect {S E : Type*} {step : S → E → S} {bytes : E → Bytes} {m : ℕ}
    (Holds : S → Bytes → Prop)
    (hstep : ∀ s text e, text.length ≤ m → Holds s text →
      Holds (step s e) ((text ++ bytes e).take m))
    (es : List E) {s : S} {text : Bytes} (hlen : text.length ≤ m) (h : Holds s text) :
    Holds (es.foldl step s) ((text ++ es.flatMap bytes).take m) := by
  induction es generalizing s text with
  | nil =>
      rw [List.flatMap_nil, List.append_nil, List.take_of_length_le hlen]
      exact h
  | cons e es ih =>
      have hrest := ih (List.length_take_le _ _) (hstep s text e hlen h)
      rwa [take_take_append, List.append_assoc, ← List.flatMap_cons] at hrest

end PppAmb
