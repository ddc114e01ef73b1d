import PppAmb.WholeReader

/-!
# The Vendored JSON Writer

`Json::FastWriter` of `components/jsoncpp/json_writer.cpp` with `valueToQuotedStringN`, which the
overloads of `RTDB` for a `Json::Value` send with. It writes ASCII only: other characters become
`\u` escapes, those beyond the basic plane two of them. Input that is not UTF-8 is replaced.

`printReal` gives the text of a `double` that was read from a token, as for `Value::asString`.

## Main results

* `escaped_eq_escapeLoop`: the short cut for strings without escapes agrees with the loop.
* `decodeString_escaped`: the reader decodes a string that is UTF-8 as what it was.
* `exists_decodeString_escaped`: any other string is decoded as one that is UTF-8.
-/

namespace PppAmb

/-! ### Strings -/

/-- `doesAnyCharRequireEscaping`. -/
def doesAnyCharRequireEscaping (s : Bytes) : Bool :=
  s.any fun c => c = ch '\\' || c = ch '"' || c < 0x20 || 0x7F < c

def REPLACEMENT_CHARACTER : ℕ := 0xFFFD

/-- `utf8ToCodepoint`: the code point at the front of a string, and what is left behind the bytes
it takes. -/
def utf8ToCodepoint (firstByte : UInt8) (s : Bytes) : ℕ × Bytes :=
  let first := firstByte.toNat
  if first < 0x80 then (first, s)
  else if first < 0xE0 then
    match s with
    | b :: r =>
        let calculated := first % 32 * 64 + b.toNat % 64
        (if calculated < 0x80 then REPLACEMENT_CHARACTER else calculated, r)
    | _ => (REPLACEMENT_CHARACTER, s)
  else if first < 0xF0 then
    match s with
    | b :: c :: r =>
        let calculated := first % 16 * 4096 + b.toNat % 64 * 64 + c.toNat % 64
        (if 0xD800 ≤ calculated ∧ calculated ≤ 0xDFFF then REPLACEMENT_CHARACTER
          else if calculated < 0x800 then REPLACEMENT_CHARACTER else calculated, r)
    | _ => (REPLACEMENT_CHARACTER, s)
  else if first < 0xF8 then
    match s with
    | b :: c :: d :: r =>
        let calculated :=
          first % 8 * 262144 + b.toNat % 64 * 4096 + c.toNat % 64 * 64 + d.toNat % 64
        (if calculated < 0x10000 then REPLACEMENT_CHARACTER else calculated, r)
    | _ => (REPLACEMENT_CHARACTER, s)
  else (REPLACEMENT_CHARACTER, s)

/-- A digit of `hex2`. -/
def hexChar (n : ℕ) : UInt8 :=
  UInt8.ofNat (if n < 10 then 48 + n else 87 + n)

/-- `toHex16Bit`. -/
def toHex16Bit (x : ℕ) : Bytes :=
  [hexChar (x / 4096 % 16), hexChar (x / 256 % 16), hexChar (x / 16 % 16), hexChar (x % 16)]

/-- `appendHex`. -/
def hexEscape (x : ℕ) : Bytes :=
  ch '\\' :: ch 'u' :: toHex16Bit x

/-- The escapes of one character. -/
def writerEscape (c : UInt8) : Option UInt8 :=
  if c = ch '"' then some (ch '"')
  else if c = ch '\\' then some (ch '\\')
  else if c = 8 then some (ch 'b')
  else if c = 12 then some (ch 'f')
  else if c = 10 then some (ch 'n')
  else if c = 13 then some (ch 'r')
  else if c = 9 then some (ch 't')
  else none

/-- A code point that has no escape of its own. -/
def codepointText (codepoint : ℕ) : Bytes :=
  if codepoint < 0x20 then hexEscape codepoint
  else if codepoint < 0x80 then [UInt8.ofNat codepoint]
  else if codepoint < 0x10000 then hexEscape codepoint
  else
    hexEscape (0xD800 + (codepoint - 0x10000) / 1024 % 1024)
      ++ hexEscape (0xDC00 + (codepoint - 0x10000) % 1024)

/-- The loop of `valueToQuotedStringN`; the first argument bounds the number of rounds. -/
def escapeLoop : ℕ → Bytes → Bytes
  | _, [] => []
  | 0, _ => []
  | n + 1, c :: r =>
      match writerEscape c with
      | some e => ch '\\' :: e :: escapeLoop n r
      | none =>
          let (codepoint, r) := utf8ToCodepoint c r
          codepointText codepoint ++ escapeLoop n r

/-- `valueToQuotedStringN` between its quotes. -/
def escaped (value : Bytes) : Bytes :=
  if doesAnyCharRequireEscaping value then escapeLoop value.length value else cString value

/-- `valueToQuotedStringN`. -/
def valueToQuotedStringN (value : Bytes) : Bytes :=
  ch '"' :: (escaped value ++ [ch '"'])

/-! ### Values -/

section Writer

variable (printReal : Bytes → Bytes)

mutual

/-- `FastWriter::writeValue`. -/
def writeValue : Value → Bytes
  | .nullValue => ascii "null"
  | .intValue n => signed n
  | .uintValue n => unsigned n
  | .realValue token => printReal token
  | .stringValue s => valueToQuotedStringN s
  | .booleanValue b => if b then ascii "true" else ascii "false"
  | .arrayValue elements => [ch '['] ++ ((writeElements elements).intersperse (ascii ",")).flatten
      ++ [ch ']']
  | .objectValue members => [ch '{'] ++ ((writeMembers members).intersperse (ascii ",")).flatten
      ++ [ch '}']

/-- The elements of an array. -/
def writeElements : List Value → List Bytes
  | [] => []
  | v :: vs => writeValue v :: writeElements vs

/-- The members of an object. -/
def writeMembers : List (Bytes × Value) → List Bytes
  | [] => []
  | (name, v) :: ms => (valueToQuotedStringN name ++ ascii ":" ++ writeValue v) :: writeMembers ms

end

/-- `FastWriter::write`. -/
def write (root : Value) : Bytes :=
  writeValue printReal root ++ ascii "\n"

end Writer

/-! ### Plain strings -/

theorem plain_of_not_escaping {s : Bytes} (h : doesAnyCharRequireEscaping s = false) :
    ∀ c ∈ s, isPlain c = true ∧ c.toNat < 128 := by
  intro c hc
  have hno := List.any_eq_false.mp h c hc
  simp only [Bool.or_eq_true, decide_eq_true_eq, not_or, UInt8.not_lt] at hno
  obtain ⟨⟨⟨hslash, hquote⟩, hlow⟩, hhigh⟩ := hno
  refine ⟨?_, ?_⟩
  · simp only [isPlain, Bool.and_eq_true, decide_eq_true_eq, bne_iff_ne]
    exact ⟨⟨hlow, hquote⟩, hslash⟩
  · have := UInt8.le_iff_toNat_le.mp hhigh
    have h127 : (0x7F : UInt8).toNat = 127 := rfl
    omega

theorem writerEscape_plain {c : UInt8} (h : isPlain c = true) : writerEscape c = none := by
  have hall : ∀ n : Fin 256, isPlain (UInt8.ofNat n.val) = true →
      writerEscape (UInt8.ofNat n.val) = none := by decide +kernel
  have hc : UInt8.ofNat c.toNat = c := UInt8.ofNat_toNat
  have := hall ⟨c.toNat, c.toNat_lt⟩
  simp only [hc] at this
  exact this h

/-- **The short cut** for strings without escapes agrees with the loop. -/
theorem escaped_eq_escapeLoop (s : Bytes) : escaped s = escapeLoop s.length s := by
  rw [escaped]
  split
  · rfl
  · rename_i hnone
    have hplain := plain_of_not_escaping (Bool.eq_false_iff.mpr hnone)
    have hnul : NulFree s := by
      rintro c hc rfl
      exact absurd (hplain 0 hc).1 (by decide)
    rw [cString_eq_self hnul]
    clear hnone hnul
    induction s with
    | nil => rfl
    | cons c s ih =>
        obtain ⟨⟨hc, hlow⟩, hs⟩ := List.forall_mem_cons.mp hplain
        have hpoint : utf8ToCodepoint c s = (c.toNat, s) := by
          simp only [utf8ToCodepoint]
          rw [if_pos hlow]
        have htext : codepointText c.toNat = [c] := by
          have h32 : 32 ≤ c.toNat := by
            simp only [isPlain, Bool.and_eq_true, decide_eq_true_eq] at hc
            exact UInt8.le_iff_toNat_le.mp hc.1.1
          rw [codepointText, if_neg (by omega), if_pos hlow, UInt8.ofNat_toNat]
        rw [List.length_cons, escapeLoop, writerEscape_plain hc]
        simp only [hpoint, htext, List.singleton_append]
        rw [← ih hs]

/-! ### UTF-8 -/

/-- The bytes of some characters. -/
def utf8 (cs : List Char) : Bytes :=
  cs.flatMap fun c => codePointToUTF8 c.toNat

/-- The text is UTF-8. -/
def IsUtf8 (s : Bytes) : Prop :=
  ∃ cs, s = utf8 cs

theorem utf8_cons (c : Char) (cs : List Char) :
    utf8 (c :: cs) = codePointToUTF8 c.toNat ++ utf8 cs :=
  rfl

/-- The range of a character: no surrogates. -/
theorem char_range (c : Char) :
    c.toNat < 0xD800 ∨ 0xDFFF < c.toNat ∧ c.toNat < 0x110000 :=
  c.valid

/-- A character as the loop writes it. -/
def charText (c : Char) : Bytes :=
  if c.toNat < 0x80 then
    match writerEscape (UInt8.ofNat c.toNat) with
    | some e => [ch '\\', e]
    | none => codepointText c.toNat
  else codepointText c.toNat

theorem toNat_ofNat_of_lt {n : ℕ} (h : n < 256) : (UInt8.ofNat n).toNat = n := by
  rw [UInt8.toNat_ofNat']
  omega

/-- A character beyond ASCII is decoded as what it was. -/
theorem utf8ToCodepoint_codePointToUTF8 {n : ℕ} (hlow : 0x80 ≤ n)
    (h : n < 0xD800 ∨ 0xDFFF < n ∧ n < 0x110000) (r : Bytes) :
    ∃ a s, codePointToUTF8 n ++ r = a :: s ∧ 0x80 ≤ a.toNat ∧ utf8ToCodepoint a s = (n, r) := by
  rw [codePointToUTF8, if_neg (by omega)]
  split
  · refine ⟨_, _, rfl, ?_, ?_⟩
    · rw [toNat_ofNat_of_lt (by omega)]
      omega
    · simp only [utf8ToCodepoint, List.append, UInt8.toNat_ofNat']
      rw [if_neg (by omega), if_pos (by omega), if_neg (by omega)]
      congr 1
      omega
  · split
    · refine ⟨_, _, rfl, ?_, ?_⟩
      · rw [toNat_ofNat_of_lt (by omega)]
        omega
      · simp only [utf8ToCodepoint, List.append, UInt8.toNat_ofNat']
        rw [if_neg (by omega), if_neg (by omega), if_pos (by omega), if_neg (by omega),
          if_neg (by omega)]
        congr 1
        omega
    · rw [if_pos (by omega)]
      refine ⟨_, _, rfl, ?_, ?_⟩
      · rw [toNat_ofNat_of_lt (by omega)]
        omega
      · simp only [utf8ToCodepoint, List.append, UInt8.toNat_ofNat']
        rw [if_neg (by omega), if_neg (by omega), if_neg (by omega), if_pos (by omega),
          if_neg (by omega)]
        congr 1
        omega

theorem writerEscape_lt {c e : UInt8} (h : writerEscape c = some e) : c.toNat < 0x80 := by
  have hall : ∀ n : Fin 256, (writerEscape (UInt8.ofNat n.val)).isSome = true → n.val < 0x80 := by
    decide +kernel
  have hc := hall ⟨c.toNat, c.toNat_lt⟩
  simp only [UInt8.ofNat_toNat] at hc
  exact hc (by rw [h]; rfl)

theorem codePointToUTF8_ne_nil (c : Char) : 1 ≤ (codePointToUTF8 c.toNat).length := by
  have hrange := char_range c
  rw [codePointToUTF8]
  repeat' split
  all_goals first | omega | simp

/-- The loop writes a text character by character. -/
theorem escapeLoop_utf8 (cs : List Char) (fuel : ℕ) (hfuel : (utf8 cs).length ≤ fuel) :
    escapeLoop fuel (utf8 cs) = cs.flatMap charText := by
  induction cs generalizing fuel with
  | nil => cases fuel <;> rfl
  | cons c cs ih =>
      rw [utf8_cons] at hfuel ⊢
      rw [List.flatMap_cons, charText]
      by_cases hascii : c.toNat < 0x80
      · have hone : codePointToUTF8 c.toNat = [UInt8.ofNat c.toNat] := by
          rw [codePointToUTF8, if_pos (by omega)]
        rw [hone, List.length_append, List.length_singleton] at hfuel
        obtain ⟨fuel, rfl⟩ := Nat.exists_eq_add_one_of_ne_zero (by omega : fuel ≠ 0)
        have hrest := ih fuel (by omega)
        have hpoint : utf8ToCodepoint (UInt8.ofNat c.toNat) (utf8 cs) = (c.toNat, utf8 cs) := by
          simp only [utf8ToCodepoint, toNat_ofNat_of_lt (by omega : c.toNat < 256)]
          rw [if_pos hascii]
        rw [hone, List.singleton_append, if_pos hascii, escapeLoop]
        cases writerEscape (UInt8.ofNat c.toNat) with
        | some e => simp [hrest]
        | none => simp [hpoint, hrest]
      · obtain ⟨a, s, hsplit, hhigh, hpoint⟩ :=
          utf8ToCodepoint_codePointToUTF8 (by omega) (char_range c) (utf8 cs)
        have hnone : writerEscape a = none := by
          cases he : writerEscape a with
          | none => rfl
          | some e => exact absurd (writerEscape_lt he) (by omega)
        have hlen := congrArg List.length hsplit
        rw [List.length_append, List.length_cons] at hlen
        rw [List.length_append] at hfuel
        obtain ⟨fuel, rfl⟩ := Nat.exists_eq_add_one_of_ne_zero (by omega : fuel ≠ 0)
        have hpos := codePointToUTF8_ne_nil c
        rw [hsplit, if_neg hascii, escapeLoop, hnone]
        simp only [hpoint]
        rw [ih fuel (by omega)]

/-! ### Decoding what is written -/

theorem hexDigit_hexChar {n : ℕ} (h : n < 16) : hexDigit (hexChar n) = some n := by
  have hall : ∀ n < 16, hexDigit (hexChar n) = some n := by decide
  exact hall n h

theorem decode_toHex16Bit {x : ℕ} (h : x < 0x10000) (r : Bytes) :
    decodeUnicodeEscapeSequence (toHex16Bit x ++ r) = some (x, r) := by
  have hdigit := fun n : ℕ => hexDigit_hexChar (Nat.mod_lt n (by decide : 0 < 16))
  simp only [toHex16Bit, List.cons_append, List.nil_append, decodeUnicodeEscapeSequence, hdigit,
    Option.bind_eq_bind, Option.bind_some, Option.pure_def, Option.some.injEq, Prod.mk.injEq,
    and_true]
  omega

/-- A code point of the basic plane that is no surrogate. -/
theorem decode_basic {x : ℕ} (h : x < 0xD800 ∨ 0xDFFF < x ∧ x < 0x10000) (r : Bytes) :
    decodeUnicodeCodePoint (toHex16Bit x ++ r) = some (x, r) := by
  rw [decodeUnicodeCodePoint, decode_toHex16Bit (by omega)]
  simp only [Option.bind_eq_bind, Option.bind_some]
  rw [if_neg (by omega)]
  rfl

/-- A pair of surrogates. -/
theorem decode_pair {x : ℕ} (r : Bytes) :
    decodeUnicodeCodePoint (toHex16Bit (0xD800 + x / 1024 % 1024)
      ++ (hexEscape (0xDC00 + x % 1024) ++ r)) = some (0x10000 + x % 0x100000, r) := by
  have hlen : ¬ (hexEscape (0xDC00 + x % 1024) ++ r).length < 6 := by
    simp [hexEscape, toHex16Bit]
  rw [decodeUnicodeCodePoint, decode_toHex16Bit (by omega)]
  simp only [Option.bind_eq_bind, Option.bind_some]
  rw [if_pos (by omega), if_neg hlen]
  simp only [hexEscape, List.cons_append, and_self, if_true, decode_toHex16Bit
    (by omega : 0xDC00 + x % 1024 < 0x10000), Option.bind_some, Option.pure_def, Option.some.injEq,
    Prod.mk.injEq, and_true]
  omega

theorem decodeLoop_escape {fuel : ℕ} {e b : UInt8} (h : simpleEscape e = some b) (r : Bytes) :
    decodeLoop (fuel + 1) (ch '\\' :: e :: r) = (decodeLoop fuel r).map (b :: ·) := by
  have hslash : ch '\\' ≠ ch '"' := by decide
  simp [decodeLoop, h, hslash]

theorem decodeLoop_unicode {fuel n : ℕ} {s r : Bytes} (h : decodeUnicodeCodePoint s = some (n, r)) :
    decodeLoop (fuel + 1) (ch '\\' :: ch 'u' :: s)
      = (decodeLoop fuel r).map (codePointToUTF8 n ++ ·) := by
  have hslash : ch '\\' ≠ ch '"' := by decide
  have hu : simpleEscape (ch 'u') = none := by decide
  rw [decodeLoop, if_neg hslash, if_pos rfl]
  simp only [hu, if_true, h, Option.bind_eq_bind, Option.bind_some]
  cases decodeLoop fuel r <;> rfl

/-- **One character** is decoded as what it was. -/
theorem decodeLoop_charText (c : Char) (fuel : ℕ) (r : Bytes) :
    decodeLoop (fuel + 1) (charText c ++ r)
      = (decodeLoop fuel r).map (codePointToUTF8 c.toNat ++ ·) := by
  rw [charText]
  by_cases hascii : c.toNat < 0x80
  · have hone : codePointToUTF8 c.toNat = [UInt8.ofNat c.toNat] := by
      rw [codePointToUTF8, if_pos (by omega)]
    rw [if_pos hascii, hone]
    cases he : writerEscape (UInt8.ofNat c.toNat) with
    | some e =>
        have hback : ∀ n < 128, ∀ e, writerEscape (UInt8.ofNat n) = some e →
            simpleEscape e = some (UInt8.ofNat n) := by decide +kernel
        exact decodeLoop_escape (hback _ hascii e he) r
    | none =>
        simp only [codepointText]
        split
        · rw [hexEscape, ← hone]
          exact decodeLoop_unicode (decode_basic (by omega) r)
        · have hplain : ∀ n < 128, writerEscape (UInt8.ofNat n) = none →
              UInt8.ofNat n ≠ ch '"' ∧ UInt8.ofNat n ≠ ch '\\' := by decide +kernel
          obtain ⟨hquote, hslash⟩ := hplain _ hascii he
          simp only [List.singleton_append, decodeLoop, if_neg hquote, if_neg hslash]
  · rw [if_neg hascii, codepointText, if_neg (by omega), if_neg hascii]
    have hrange := char_range c
    split
    · rw [hexEscape]
      exact decodeLoop_unicode (decode_basic (by omega) r)
    · have hpair := decode_pair (x := c.toNat - 0x10000) r
      have hpoint : 0x10000 + (c.toNat - 0x10000) % 0x100000 = c.toNat := by omega
      rw [hpoint] at hpair
      rw [List.append_assoc]
      exact decodeLoop_unicode hpair

theorem charText_ne_nil (c : Char) : 1 ≤ (charText c).length := by
  rw [charText]
  have hpoint : 1 ≤ (codepointText c.toNat).length := by
    rw [codepointText]
    repeat' split
    all_goals simp [hexEscape]
  split
  · split
    · simp
    · exact hpoint
  · exact hpoint

/-- What the loop writes is decoded as the characters. -/
theorem decodeLoop_charTexts (cs : List Char) (fuel : ℕ)
    (hfuel : (cs.flatMap charText).length ≤ fuel) :
    decodeLoop fuel (cs.flatMap charText) = some (utf8 cs) := by
  induction cs generalizing fuel with
  | nil => cases fuel <;> rfl
  | cons c cs ih =>
      have hpos := charText_ne_nil c
      rw [List.flatMap_cons, List.length_append] at hfuel
      obtain ⟨fuel, rfl⟩ := Nat.exists_eq_add_one_of_ne_zero (by omega : fuel ≠ 0)
      rw [List.flatMap_cons, decodeLoop_charText, ih fuel (by omega), utf8_cons]
      rfl

/-! ### Any string -/

/-- What the code point at the front of a string can be: an ASCII byte, or a character beyond. -/
theorem utf8ToCodepoint_cases (a : UInt8) (s : Bytes) :
    (a.toNat < 0x80 ∧ utf8ToCodepoint a s = (a.toNat, s)) ∨
      ∃ n r, utf8ToCodepoint a s = (n, r) ∧ r.length ≤ s.length ∧ 0x80 ≤ n ∧
        (n < 0xD800 ∨ 0xDFFF < n) := by
  simp only [utf8ToCodepoint]
  split
  · rename_i hascii
    exact Or.inl ⟨hascii, rfl⟩
  · refine Or.inr ?_
    have hreplaced : 0x80 ≤ REPLACEMENT_CHARACTER ∧
        (REPLACEMENT_CHARACTER < 0xD800 ∨ 0xDFFF < REPLACEMENT_CHARACTER) := by decide
    split
    · split
      · refine ⟨_, _, rfl, by simp only [List.length_cons]; omega, ?_⟩
        split
        · exact hreplaced
        · rename_i hcalculated
          exact ⟨by omega, by omega⟩
      · exact ⟨_, _, rfl, le_rfl, hreplaced⟩
    · split
      · split
        · refine ⟨_, _, rfl, by simp only [List.length_cons]; omega, ?_⟩
          split
          · exact hreplaced
          · split
            · exact hreplaced
            · exact ⟨by omega, by omega⟩
        · exact ⟨_, _, rfl, le_rfl, hreplaced⟩
      · split
        · split
          · refine ⟨_, _, rfl, by simp only [List.length_cons]; omega, ?_⟩
            split
            · exact hreplaced
            · exact ⟨by omega, by omega⟩
          · exact ⟨_, _, rfl, le_rfl, hreplaced⟩
        · exact ⟨_, _, rfl, le_rfl, hreplaced⟩

theorem charText_ofNat {n : ℕ} (hlow : 0x80 ≤ n) (h : n < 0xD800 ∨ 0xDFFF < n) :
    ∃ c, codepointText n = charText c := by
  have hchar : ∀ m : ℕ, 0x80 ≤ m → m.isValidChar → charText (Char.ofNat m) = codepointText m := by
    intro m hm hvalid
    have hback : (Char.ofNat m).toNat = m := by
      rw [Char.ofNat, dif_pos hvalid]
      rfl
    rw [charText, hback, if_neg (by omega)]
  by_cases hbasic : n < 0x10000
  · exact ⟨Char.ofNat n, (hchar n hlow (by simp only [Nat.isValidChar]; omega)).symm⟩
  · -- beyond the planes of Unicode only 20 bits are written
    refine ⟨Char.ofNat (0x10000 + (n - 0x10000) % 0x100000), ?_⟩
    have hhigh : (n - 0x10000) % 0x100000 / 1024 % 1024 = (n - 0x10000) / 1024 % 1024 := by omega
    have hlow' : (n - 0x10000) % 0x100000 % 1024 = (n - 0x10000) % 1024 := by omega
    rw [hchar _ (by omega) (by simp only [Nat.isValidChar]; omega), codepointText, codepointText,
      if_neg (by omega), if_neg (by omega), if_neg hbasic, if_neg (by omega), if_neg (by omega),
      if_neg (by omega), Nat.add_sub_cancel_left, hhigh, hlow']

theorem charText_ascii {a : UInt8} (h : a.toNat < 0x80) : charText (Char.ofNat a.toNat)
    = match writerEscape a with
      | some e => [ch '\\', e]
      | none => codepointText a.toNat := by
  have hback : (Char.ofNat a.toNat).toNat = a.toNat := by
    rw [Char.ofNat, dif_pos (by simp only [Nat.isValidChar]; omega)]
    rfl
  rw [charText, hback, if_pos h, UInt8.ofNat_toNat]

/-- Whatever the string is, some characters are written. -/
theorem exists_chars (fuel : ℕ) (s : Bytes) (hfuel : s.length ≤ fuel) :
    ∃ cs : List Char, escapeLoop fuel s = cs.flatMap charText := by
  induction fuel generalizing s with
  | zero =>
      obtain rfl : s = [] := List.eq_nil_of_length_eq_zero (by omega)
      exact ⟨[], rfl⟩
  | succ fuel ih =>
      cases s with
      | nil => exact ⟨[], rfl⟩
      | cons a s =>
          rw [List.length_cons] at hfuel
          rw [escapeLoop]
          cases he : writerEscape a with
          | some e =>
              obtain ⟨cs, hcs⟩ := ih s (by omega)
              refine ⟨Char.ofNat a.toNat :: cs, ?_⟩
              rw [List.flatMap_cons, charText_ascii (writerEscape_lt he), he, ← hcs]
              rfl
          | none =>
              rcases utf8ToCodepoint_cases a s with ⟨hascii, hpoint⟩ | ⟨n, r, hpoint, hr, hlow, hn⟩
              · obtain ⟨cs, hcs⟩ := ih s (by omega)
                refine ⟨Char.ofNat a.toNat :: cs, ?_⟩
                rw [List.flatMap_cons, charText_ascii hascii, he, ← hcs, hpoint]
              · obtain ⟨cs, hcs⟩ := ih r (by omega)
                obtain ⟨c, hc⟩ := charText_ofNat hlow hn
                refine ⟨c :: cs, ?_⟩
                rw [List.flatMap_cons, ← hc, ← hcs, hpoint]

theorem isPlain_hexChar {n : ℕ} (h : n < 16) : isPlain (hexChar n) = true := by
  have hall : ∀ n < 16, isPlain (hexChar n) = true := by decide
  exact hall n h

theorem isRawString_escape {e : UInt8} (he : isEscape e = true) {r : Bytes}
    (h : isRawString r = true) : isRawString (ch '\\' :: e :: r) = true := by
  rw [isRawString, if_pos rfl, he, h]
  rfl

theorem isRawString_hexEscape (x : ℕ) {r : Bytes} (h : isRawString r = true) :
    isRawString (hexEscape x ++ r) = true := by
  have hplain := fun n : ℕ => isPlain_hexChar (Nat.mod_lt n (by decide : 0 < 16))
  exact isRawString_escape (by decide) (isRawString_cons (hplain _) (isRawString_cons (hplain _)
    (isRawString_cons (hplain _) (isRawString_cons (hplain _) h))))

theorem isRawString_charText (c : Char) {r : Bytes} (h : isRawString r = true) :
    isRawString (charText c ++ r) = true := by
  have hpoint : (c.toNat < 0x80 → writerEscape (UInt8.ofNat c.toNat) = none) →
      isRawString (codepointText c.toNat ++ r) = true := by
    intro hnone
    rw [codepointText]
    split
    · exact isRawString_hexEscape _ h
    · split
      · rename_i hlow hascii
        have hplain : ∀ n < 128, ¬ n < 32 → writerEscape (UInt8.ofNat n) = none →
            isPlain (UInt8.ofNat n) = true := by decide +kernel
        exact isRawString_cons (hplain _ hascii hlow (hnone hascii)) h
      · split
        · exact isRawString_hexEscape _ h
        · rw [List.append_assoc]
          exact isRawString_hexEscape _ (isRawString_hexEscape _ h)
  rw [charText]
  split
  · cases he : writerEscape (UInt8.ofNat c.toNat) with
    | some e =>
        have hescape : ∀ n : Fin 256, ∀ e, writerEscape (UInt8.ofNat n.val) = some e →
            isEscape e = true := by decide +kernel
        have hlt : c.toNat < 256 := by omega
        exact isRawString_escape (hescape ⟨c.toNat, hlt⟩ e he) h
    | none => exact hpoint fun _ => he
  · rename_i hhigh
    exact hpoint fun hascii => absurd hascii hhigh

theorem isRawString_charTexts (cs : List Char) : isRawString (cs.flatMap charText) = true := by
  induction cs with
  | nil => rfl
  | cons c cs ih =>
      rw [List.flatMap_cons]
      exact isRawString_charText c ih

/-- The text between the quotes, as a string of a JSON text. -/
theorem isRawString_escaped (s : Bytes) : isRawString (escaped s) = true := by
  obtain ⟨cs, hcs⟩ := exists_chars s.length s le_rfl
  rw [escaped_eq_escapeLoop, hcs]
  exact isRawString_charTexts cs

theorem decodeString_escaped {s : Bytes} (h : IsUtf8 s) : decodeString (escaped s) = some s := by
  obtain ⟨cs, rfl⟩ := h
  rw [escaped_eq_escapeLoop, escapeLoop_utf8 cs _ le_rfl, decodeString,
    decodeLoop_charTexts cs _ le_rfl]

/-- What is read back is UTF-8, whatever was written. -/
theorem exists_decodeString_escaped (s : Bytes) :
    ∃ t, decodeString (escaped s) = some t ∧ IsUtf8 t := by
  obtain ⟨cs, hcs⟩ := exists_chars s.length s le_rfl
  refine ⟨utf8 cs, ?_, cs, rfl⟩
  rw [escaped_eq_escapeLoop, hcs, decodeString, decodeLoop_charTexts cs _ le_rfl]

/-! ### Numbers -/

theorem isDigit_of_isDigitOf {c : UInt8} (h : isDigitOf 10 c = true) : isDigit c = true := by
  obtain ⟨hlow, hhigh⟩ := isDigitOf_ten h
  simp only [isDigit, Bool.and_eq_true, decide_eq_true_eq, UInt8.le_iff_toNat_le]
  exact ⟨hlow, hhigh⟩

/-- Digits of a number that does not exceed the maximum are read as the number. -/
theorem decodeInteger_of_le {max : ℕ} (hmax : 10 ≤ max) {ds : Bytes}
    (hdigits : ∀ c ∈ ds, isDigitOf 10 c = true) (value : ℕ)
    (hle : ds.foldl (fun n c => n * 10 + (digitValue c).getD 0) value ≤ max) :
    decodeInteger max value ds
      = some (ds.foldl (fun n c => n * 10 + (digitValue c).getD 0) value) := by
  have hgrow : ∀ (ds : Bytes) (value : ℕ),
      value ≤ ds.foldl (fun n c => n * 10 + (digitValue c).getD 0) value := by
    intro ds
    induction ds with
    | nil => exact fun value => le_rfl
    | cons c ds ih =>
        intro value
        have hfirst : value ≤ value * 10 + (digitValue c).getD 0 := by omega
        exact hfirst.trans (ih _)
  induction ds generalizing value with
  | nil => rfl
  | cons c ds ih =>
      obtain ⟨hc, hds⟩ := List.forall_mem_cons.mp hdigits
      have hvalue : (digitValue c).getD 0 = c.toNat - 48 := by
        rw [digitValue_of_digit hc]
        rfl
      rw [List.foldl_cons, hvalue] at hle ⊢
      have hnow := le_trans (hgrow ds _) hle
      -- a further digit would make the number larger still
      have hmore : ds ≠ [] → (value * 10 + (c.toNat - 48)) * 10 ≤ max := by
        intro hne
        obtain ⟨d, ds, rfl⟩ := List.exists_cons_of_ne_nil hne
        rw [List.foldl_cons] at hle
        exact le_trans (by omega) (le_trans (hgrow ds _) hle)
      rw [decodeInteger, if_neg (by simp [isDigit_of_isDigitOf hc])]
      dsimp only
      rw [if_neg ?_]
      · exact ih hds _ hle
      · rintro ⟨hlow, hover | hover | hover⟩
        · omega
        · have := hmore hover
          omega
        · omega

theorem decodeInteger_eq_none {max : ℕ} {ds : Bytes} (h : ∃ c ∈ ds, isDigit c = false) (value : ℕ) :
    decodeInteger max value ds = none := by
  induction ds generalizing value with
  | nil => exact absurd h (by simp)
  | cons d ds ih =>
      rw [decodeInteger]
      split
      · rfl
      · rename_i hd
        obtain ⟨c, hc, hno⟩ := h
        rcases List.mem_cons.mp hc with rfl | hc
        · exact absurd hno (by simpa using hd)
        · dsimp only
          split
          · rfl
          · exact ih ⟨c, hc, hno⟩ _

theorem decodeInteger_unsigned {max n : ℕ} (hmax : 10 ≤ max) (h : n ≤ max) :
    decodeInteger max 0 (unsigned n) = some n := by
  have hvalue := digitsValue_unsigned n
  rw [digitsValue] at hvalue
  have hread := decodeInteger_of_le hmax (unsigned_digits n) 0 (by rwa [hvalue])
  rwa [hvalue] at hread

theorem head_unsigned_ne_minus (n : ℕ) : (unsigned n).head? ≠ some (ch '-') := by
  intro h
  have hdigit := unsigned_digits n _ (List.mem_of_head? h)
  exact absurd hdigit (by decide)

/-- The type that the reader gives to a number that is not negative. -/
def readNat (n : ℕ) : Value :=
  if n ≤ 2 ^ 31 - 1 then .intValue n else .uintValue n

theorem decodeNumber_unsigned {n : ℕ} (h : n < 2 ^ 64) :
    decodeNumber (unsigned n) = some (readNat n) := by
  simp only [decodeNumber, head_unsigned_ne_minus, decide_false, Bool.false_eq_true, if_false,
    decodeInteger_unsigned (by decide : 10 ≤ 2 ^ 64 - 1) (by omega : n ≤ 2 ^ 64 - 1), readNat]
  split <;> rfl

theorem decodeNumber_negative {n : ℕ} (h : n ≤ 2 ^ 63) :
    decodeNumber (ch '-' :: unsigned n) = some (.intValue (-(n : Int))) := by
  simp only [decodeNumber, List.head?_cons, decide_true, if_true, List.tail_cons,
    decodeInteger_unsigned (by decide : 10 ≤ 2 ^ 63) h]

/-- A number text with decimals or an exponent is read as a `double`. -/
theorem decodeNumber_real {x : NumberText} (hx : x.wellFormed = true)
    (hreal : x.fraction.isSome = true ∨ x.exponent.isSome = true) :
    decodeNumber x.print = some (.realValue x.print) := by
  obtain ⟨negative, first, integral, fraction, exponent⟩ := x
  simp only [NumberText.wellFormed, Bool.and_eq_true] at hx
  set mantissa := digitsText (first :: integral) ++ (fractionText fraction ++ exponentText exponent)
    with hmantissa
  have hmark : ∃ c ∈ mantissa, isDigit c = false := by
    rcases hreal with h | h
    · obtain ⟨digits, rfl⟩ := Option.isSome_iff_exists.mp h
      exact ⟨ch '.', by simp [hmantissa, fractionText], by decide⟩
    · obtain ⟨e, rfl⟩ := Option.isSome_iff_exists.mp h
      refine ⟨if e.upper then ch 'E' else ch 'e', ?_, by split <;> decide⟩
      simp [hmantissa, exponentText, ExponentText.print]
  have hhead : mantissa.head? ≠ some (ch '-') := by
    have hall : ∀ d : Fin 10, 48 + UInt8.ofNat d.val ≠ ch '-' := by decide
    rw [hmantissa]
    simpa [digitsText] using hall first
  have hbehind : Behind [] := fun c hc => absurd hc (by simp)
  have hfraction : ∀ c, (fractionText fraction ++ exponentText exponent).head? = some c →
      isDigit c = false := by
    have hfollows := @fraction_head fraction exponent [] (fun c hc => absurd hc (by simp))
    rwa [List.append_nil] at hfollows
  have hexponent : ∀ c, (exponentText exponent).head? = some c → c = ch 'e' ∨ c = ch 'E' := by
    intro c hc
    rw [← List.append_nil (exponentText exponent)] at hc
    rcases exponent_head c hc with h | h | h
    · exact Or.inl h
    · exact Or.inr h
    · exact absurd h (by simp)
  have hreads : readsAsDouble mantissa = true := by
    have hspan : spanFraction (fractionText fraction ++ exponentText exponent)
        = (fractionText fraction, exponentText exponent) := spanFraction_append fraction
      (fun c hc => by rcases hexponent c hc with rfl | rfl <;> decide)
      (fun c hc => by rcases hexponent c hc with rfl | rfl <;> decide)
    have hspan' := spanExponent_append exponent hbehind
    rw [List.append_nil] at hspan'
    have hdigit : ∀ d : Fin 10, isDigit (48 + UInt8.ofNat d.val) = true := by decide
    have hone : (digitsText (first :: integral) ++ fractionText fraction).any isDigit = true := by
      simp [digitsText, hdigit first]
    have hintegral : spanDigits mantissa
        = (digitsText (first :: integral), fractionText fraction ++ exponentText exponent) :=
      spanDigits_append (first :: integral) hfraction
    simp only [readsAsDouble, hhead, if_false, hintegral, hspan, hspan', hone, Bool.true_and]
    cases exponent with
    | none => rfl
    | some e =>
        have hdigits : e.digits ≠ [] := by simpa using hx.2
        obtain ⟨d, ds, hds⟩ := List.exists_cons_of_ne_nil hdigits
        rw [Bool.or_eq_true, List.any_eq_true]
        refine Or.inr ⟨_, ?_, hdigit d⟩
        simp [exponentText, ExponentText.print, hds, digitsText]
  cases negative with
  | true =>
      have hprint : NumberText.print ⟨true, first, integral, fraction, exponent⟩
          = ch '-' :: mantissa := rfl
      have hstrip : readsAsDouble (ch '-' :: mantissa) = readsAsDouble mantissa := by
        rw [readsAsDouble, readsAsDouble]
        simp [hhead]
      rw [hprint]
      simp only [decodeNumber, List.head?_cons, decide_true, if_true, List.tail_cons,
        decodeInteger_eq_none hmark, decodeDouble, hstrip, hreads]
  | false =>
      have hprint : NumberText.print ⟨false, first, integral, fraction, exponent⟩ = mantissa := rfl
      rw [hprint]
      simp only [decodeNumber, hhead, decide_false, Bool.false_eq_true, if_false,
        decodeInteger_eq_none hmark, decodeDouble, hreads, if_true]

end PppAmb
