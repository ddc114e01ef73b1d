import PppAmb.CNumber
import PppAmb.JsonText

/-!
# The Strings of a JSON Text

What may stand between the quotes of a JSON string, read byte by byte: plain bytes, complete
escapes and complete UTF-8 characters. With it the texts of `JsonText` become valid JSON to
the last byte, and a string can be read from any place where it begins.

## Main results

* `isStringBody_append_mark`: a separator divides a string into two strings.
* `isStringBody_map`: which separator stands in a place does not matter.
* `Strings.value_of_occurrence`: what follows `"name":"` anywhere in a valid text is a string
  up to its closing quote.
-/

namespace PppAmb

/-! ### Reading a string -/

/-- The second byte of a UTF-8 character: any tail byte, or the part of them that its first
byte leaves. -/
inductive TailRange
  | any
  | afterE0
  | afterED
  | afterF0
  | afterF4
  deriving DecidableEq, Repr

/-- The bytes of the range. -/
def TailRange.contains : TailRange → UInt8 → Bool
  | .any, c => 0x80 ≤ c && c ≤ 0xBF
  | .afterE0, c => 0xA0 ≤ c && c ≤ 0xBF
  | .afterED, c => 0x80 ≤ c && c ≤ 0x9F
  | .afterF0, c => 0x90 ≤ c && c ≤ 0xBF
  | .afterF4, c => 0x80 ≤ c && c ≤ 0x8F

/-- Where the reader of a string stands. -/
inductive StringState
  /-- Between two characters. -/
  | between
  /-- Behind a backslash. -/
  | escaped
  /-- Behind `\u`, with `n + 1` digits to come. -/
  | hex (n : ℕ)
  /-- Inside a UTF-8 character, with a byte of the range and `n` more bytes to come. -/
  | tail (range : TailRange) (n : ℕ)
  deriving DecidableEq, Repr

/-- The first byte of a UTF-8 character of several bytes: the range of the second byte, and
the number of bytes behind that. -/
def leadByte (c : UInt8) : Option (TailRange × ℕ) :=
  if c < 0xC2 then none
  else if c < 0xE0 then some (.any, 0)
  else if c = 0xE0 then some (.afterE0, 1)
  else if c = 0xED then some (.afterED, 1)
  else if c < 0xF0 then some (.any, 1)
  else if c = 0xF0 then some (.afterF0, 2)
  else if c < 0xF4 then some (.any, 2)
  else if c = 0xF4 then some (.afterF4, 2)
  else none

/-- The first byte of a character. -/
def firstByte (c : UInt8) : Option StringState :=
  if c = ch '\\' then some .escaped
  else if !isPlain c then none
  else if c < 0x80 then some .between
  else (leadByte c).map fun lead => .tail lead.1 lead.2

/-- One byte; `none` when it cannot stand there, as the closing quote between two characters. -/
def StringState.step : StringState → UInt8 → Option StringState
  | .between, c => firstByte c
  | .escaped, c =>
      if c = ch 'u' then some (.hex 3) else if isEscape c then some .between else none
  | .hex n, c =>
      if isDigitOf 16 c then
        match n with
        | 0 => some .between
        | n + 1 => some (.hex n)
      else none
  | .tail range n, c =>
      if range.contains c then
        match n with
        | 0 => some .between
        | n + 1 => some (.tail .any n)
      else none

/-- Where the reader stands behind a text. -/
def StringState.run (st : StringState) (s : Bytes) : Option StringState :=
  s.foldlM StringState.step st

/-- A well-formed text between the quotes of a JSON string. -/
def isStringBody (s : Bytes) : Bool :=
  StringState.between.run s = some .between

/-- What the reader takes from the front of a text. -/
def StringState.read : StringState → Bytes → Bytes
  | _, [] => []
  | st, c :: s =>
      match st.step c with
      | none => []
      | some st => c :: st.read s

/-- The string a text begins with, up to its closing quote. -/
def stringAt (s : Bytes) : Bytes :=
  StringState.between.read s

/-- The separators, which stand for themselves and are no part of a longer character. -/
def isMark (c : UInt8) : Bool :=
  c ∈ ascii "-,;|"

@[simp] theorem StringState.run_nil (st : StringState) : st.run [] = some st := rfl

theorem StringState.run_cons (st : StringState) (c : UInt8) (s : Bytes) :
    st.run (c :: s) = (st.step c).bind fun st => st.run s := by
  rw [StringState.run, List.foldlM_cons]
  rfl

theorem StringState.run_append (st : StringState) (s t : Bytes) :
    st.run (s ++ t) = (st.run s).bind fun st => st.run t := by
  rw [StringState.run, List.foldlM_append]
  rfl

/-! ### Single bytes -/

/-- An ASCII byte is no tail byte. -/
theorem TailRange.contains_ascii {c : UInt8} (hc : c < 0x80) (range : TailRange) :
    range.contains c = false := by
  rw [UInt8.lt_iff_toNat_lt] at hc
  have hlow : (0x80 : UInt8).toNat = 0x80 := rfl
  cases range <;>
    simp only [TailRange.contains, Bool.and_eq_false_iff, decide_eq_false_iff_not,
      UInt8.le_iff_toNat_le] <;>
    exact Or.inl (not_le.mpr (lt_of_lt_of_le hc (by decide)))

/-- An ASCII byte that is no digit stands between two characters or behind a backslash. -/
theorem step_ascii {c : UInt8} (hc : c < 0x80) (hdigit : isDigitOf 16 c = false)
    {st st' : StringState} (h : st.step c = some st') : st = .between ∨ st = .escaped := by
  cases st with
  | between => exact Or.inl rfl
  | escaped => exact Or.inr rfl
  | hex n => exact absurd h (by simp [StringState.step, hdigit])
  | tail range n => exact absurd h (by simp [StringState.step, TailRange.contains_ascii hc])

/-- A mark stands between two characters, and nowhere else. -/
theorem step_mark {c : UInt8} (hc : isMark c = true) {st st' : StringState} :
    st.step c = some st' ↔ st = .between ∧ st' = .between := by
  have hcases : c = 45 ∨ c = 44 ∨ c = 59 ∨ c = 124 := by
    simpa [isMark, ascii] using hc
  have hascii : c < 0x80 ∧ isDigitOf 16 c = false := by
    rcases hcases with rfl | rfl | rfl | rfl <;> exact ⟨by decide, rfl⟩
  have hbetween : StringState.between.step c = some .between := by
    rcases hcases with rfl | rfl | rfl | rfl <;> rfl
  have hescaped : StringState.escaped.step c = none := by
    rcases hcases with rfl | rfl | rfl | rfl <;> rfl
  constructor
  · intro h
    rcases step_ascii hascii.1 hascii.2 h with rfl | rfl
    · exact ⟨rfl, Option.some.inj (h.symm.trans hbetween)⟩
    · exact absurd h (by simp [hescaped])
  · rintro ⟨rfl, rfl⟩
    exact hbetween

/-- A quote only ends an escape. -/
theorem step_quote {st st' : StringState} :
    st.step (ch '"') = some st' ↔ st = .escaped ∧ st' = .between := by
  have hbetween : StringState.between.step (ch '"') = none := rfl
  have hescaped : StringState.escaped.step (ch '"') = some .between := rfl
  constructor
  · intro h
    rcases step_ascii (by decide) rfl h with rfl | rfl
    · exact absurd h (by simp [hbetween])
    · exact ⟨rfl, Option.some.inj (h.symm.trans hescaped)⟩
  · rintro ⟨rfl, rfl⟩
    exact hescaped

theorem step_nul (st : StringState) : st.step 0 = none := by
  rw [Option.eq_none_iff_forall_ne_some]
  intro st' h
  have hbetween : StringState.between.step 0 = none := rfl
  have hescaped : StringState.escaped.step 0 = none := rfl
  rcases step_ascii (by decide) rfl h with rfl | rfl
  · exact absurd h (by simp [hbetween])
  · exact absurd h (by simp [hescaped])

/-! ### Whole strings -/

theorem isStringBody_iff {s : Bytes} :
    isStringBody s = true ↔ StringState.between.run s = some .between := by
  simp [isStringBody]

@[simp] theorem isStringBody_nil : isStringBody [] = true := rfl

/-- Plain ASCII bytes. -/
def isPlainAscii (c : UInt8) : Bool :=
  isPlain c && c < 0x80

/-- A text of plain ASCII bytes is well-formed. -/
theorem isStringBody_of_plainAscii {s : Bytes} (h : ∀ c ∈ s, isPlainAscii c = true) :
    isStringBody s = true := by
  rw [isStringBody_iff]
  induction s with
  | nil => rfl
  | cons c s ih =>
      obtain ⟨hc, hs⟩ := List.forall_mem_cons.mp h
      rw [isPlainAscii, Bool.and_eq_true, decide_eq_true_eq] at hc
      have hslash : c ≠ ch '\\' := by
        rintro rfl
        exact absurd hc.1 (by decide)
      have hstep : StringState.between.step c = some .between := by
        simp [StringState.step, firstByte, hslash, hc]
      rw [StringState.run_cons, hstep]
      exact ih hs

/-- What can be read holds no NUL. -/
theorem StringState.nulFree_of_run {s : Bytes} {st st' : StringState} (h : st.run s = some st') :
    NulFree s := by
  induction s generalizing st with
  | nil => simp [NulFree]
  | cons c s ih =>
      rw [StringState.run_cons] at h
      obtain ⟨next, hstep, hrest⟩ := Option.bind_eq_some_iff.mp h
      intro b hb
      rcases List.mem_cons.mp hb with rfl | hb
      · rintro rfl
        exact absurd hstep (by simp [step_nul])
      · exact ih hrest b hb

/-- **Division.** A mark divides a string into two strings. -/
theorem isStringBody_append_mark {c : UInt8} (hc : isMark c = true) (s t : Bytes) :
    isStringBody (s ++ c :: t) = true ↔ isStringBody s = true ∧ isStringBody t = true := by
  simp only [isStringBody_iff, StringState.run_append, StringState.run_cons,
    Option.bind_eq_some_iff, step_mark hc]
  constructor
  · rintro ⟨st, hs, st', ⟨rfl, rfl⟩, ht⟩
    exact ⟨hs, ht⟩
  · rintro ⟨hs, ht⟩
    exact ⟨.between, hs, .between, ⟨rfl, rfl⟩, ht⟩

/-- **Exchange.** Which mark stands in a place does not matter. -/
theorem isStringBody_map {f : UInt8 → UInt8}
    (hf : ∀ c, f c = c ∨ (isMark c = true ∧ isMark (f c) = true)) (s : Bytes) :
    isStringBody (s.map f) = isStringBody s := by
  have hstep : ∀ (st : StringState) (c : UInt8), st.step (f c) = st.step c := by
    intro st c
    rcases hf c with hc | ⟨hc, hfc⟩
    · rw [hc]
    · refine Option.ext fun st' => ?_
      rw [step_mark hc, step_mark hfc]
  have hrun : ∀ st : StringState, st.run (s.map f) = st.run s := by
    induction s with
    | nil => exact fun st => rfl
    | cons c s ih =>
        intro st
        simp only [List.map_cons, StringState.run_cons, hstep, ih]
  simp only [isStringBody, hrun]

/-- What follows an escaped quote in a string is a string. -/
theorem isStringBody_of_append_quote {s t : Bytes} (h : isStringBody (s ++ ch '"' :: t) = true) :
    isStringBody t = true := by
  simp only [isStringBody_iff, StringState.run_append, StringState.run_cons,
    Option.bind_eq_some_iff, step_quote] at h ⊢
  obtain ⟨st, -, st', ⟨rfl, rfl⟩, ht⟩ := h
  exact ht

/-- What stands in front of an escaped quote in a string is no string: its backslash is left
over. -/
theorem not_isStringBody_of_append_quote {s t : Bytes}
    (h : isStringBody (s ++ ch '"' :: t) = true) : isStringBody s = false := by
  rw [Bool.eq_false_iff]
  intro hs
  simp only [isStringBody_iff, StringState.run_append, StringState.run_cons,
    Option.bind_eq_some_iff, step_quote] at h hs
  obtain ⟨st, hst, st', ⟨rfl, -⟩, -⟩ := h
  exact absurd (hs.symm.trans hst) (by simp)

theorem StringState.read_append {s : Bytes} {st : StringState} (h : st.run s = some .between)
    (t : Bytes) : st.read (s ++ ch '"' :: t) = s := by
  induction s generalizing st with
  | nil =>
      obtain rfl : st = .between := Option.some.inj h
      rfl
  | cons c s ih =>
      rw [StringState.run_cons] at h
      obtain ⟨next, hstep, hrest⟩ := Option.bind_eq_some_iff.mp h
      rw [List.cons_append, StringState.read, hstep]
      exact congrArg (c :: ·) (ih hrest)

/-- A string is read up to its closing quote. -/
theorem stringAt_append {s : Bytes} (hs : isStringBody s = true) (t : Bytes) :
    stringAt (s ++ ch '"' :: t) = s :=
  StringState.read_append (isStringBody_iff.mp hs) t

/-! ### Texts of strings -/

theorem isRawString_cons {c : UInt8} (hc : isPlain c = true) {s : Bytes}
    (hs : isRawString s = true) : isRawString (c :: s) = true := by
  cases s with
  | nil => exact hc
  | cons e r =>
      have hne : c ≠ ch '\\' := by
        simp only [isPlain, Bool.and_eq_true, bne_iff_ne] at hc
        exact hc.2
      simp [isRawString, hne, hc, hs]

/-- Everything from the digits on is plain, but for the backslash. -/
theorem isPlain_of_le {c : UInt8} (h : 48 ≤ c) (hslash : c ≠ ch '\\') : isPlain c = true := by
  have hlow : 32 ≤ c := UInt8.le_trans (by decide) h
  have hquote : c ≠ ch '"' := by
    rintro rfl
    exact absurd h (by decide)
  simp [isPlain, hlow, hquote, hslash]

theorem isPlain_of_digit {c : UInt8} (h : isDigitOf 16 c = true) : isPlain c = true := by
  refine isPlain_of_le ?_ ?_
  · by_contra hlow
    have hupper : ¬ 97 ≤ c ∧ ¬ 65 ≤ c :=
      ⟨fun h97 => hlow (UInt8.le_trans (by decide) h97),
        fun h65 => hlow (UInt8.le_trans (by decide) h65)⟩
    simp [isDigitOf, digitValue, hlow, hupper] at h
  · rintro rfl
    exact absurd h (by decide)

/-- A byte is plain, or a backslash, or what may follow one. -/
theorem step_cases {st st' : StringState} {c : UInt8} (h : st.step c = some st') :
    (st ≠ .escaped ∧ st' ≠ .escaped ∧ isPlain c = true) ∨
      (st = .between ∧ c = ch '\\' ∧ st' = .escaped) ∨
      (st = .escaped ∧ isEscape c = true ∧ st' ≠ .escaped) := by
  cases st with
  | between =>
      by_cases hslash : c = ch '\\'
      · subst hslash
        exact Or.inr (Or.inl ⟨rfl, rfl, (Option.some.inj h).symm⟩)
      · simp only [StringState.step, firstByte, if_neg hslash] at h
        refine Or.inl ⟨by simp, ?_, ?_⟩
        · rintro rfl
          split_ifs at h <;> exact absurd h (by simp)
        · by_contra hplain
          rw [if_pos (by simpa using hplain)] at h
          exact absurd h (by simp)
  | escaped =>
      refine Or.inr (Or.inr ⟨rfl, ?_⟩)
      simp only [StringState.step] at h
      split_ifs at h with hu hescape
      · obtain rfl := Option.some.inj h
        exact ⟨by rw [hu]; rfl, by simp⟩
      · obtain rfl := Option.some.inj h
        exact ⟨hescape, by simp⟩
  | hex n =>
      simp only [StringState.step] at h
      split_ifs at h with hdigit
      refine Or.inl ⟨by simp, ?_, ?_⟩
      · rintro rfl
        cases n <;> exact absurd h (by simp)
      · exact isPlain_of_digit hdigit
  | tail range n =>
      simp only [StringState.step] at h
      split_ifs at h with hbyte
      refine Or.inl ⟨by simp, ?_, ?_⟩
      · rintro rfl
        cases n <;> exact absurd h (by simp)
      · have htail : 0x80 ≤ c := by
          refine UInt8.not_lt.mp fun hascii => ?_
          exact absurd hbyte (by simp [TailRange.contains_ascii hascii])
        refine isPlain_of_le (UInt8.le_trans (by decide) htail) ?_
        rintro rfl
        exact absurd htail (by decide)

/-- A well-formed string is the text of a string. -/
theorem isRawString_of_isStringBody {s : Bytes} (h : isStringBody s = true) :
    isRawString s = true := by
  have hrun : ∀ {st : StringState}, st.run s = some .between →
      isRawString (if st = .escaped then ch '\\' :: s else s) = true := by
    -- an escape is two bytes: behind its first one the claim is about both
    clear h
    induction s with
    | nil =>
        intro st h
        obtain rfl := Option.some.inj h
        rfl
    | cons c s ih =>
        intro st h
        rw [StringState.run_cons] at h
        obtain ⟨next, hstep, hrest⟩ := Option.bind_eq_some_iff.mp h
        have hs := ih hrest
        rcases step_cases hstep with ⟨hst, hnext, hc⟩ | ⟨rfl, rfl, rfl⟩ | ⟨rfl, hc, hnext⟩
        · rw [if_neg hnext] at hs
          rw [if_neg hst]
          exact isRawString_cons hc hs
        · exact hs
        · rw [if_neg hnext] at hs
          simp [isRawString, hc, hs]
  exact hrun (isStringBody_iff.mp h)

/-! ### Valid texts -/

/-- A number without leading zeros, and with digits behind its point and its exponent mark. -/
def NumberText.wellFormed (x : NumberText) : Bool :=
  (x.integral.isEmpty || x.first.val != 0) && x.fraction.all (fun digits => !digits.isEmpty)
    && x.exponent.all fun e => !e.digits.isEmpty

mutual

/-- The text of the value is valid JSON. -/
def Json.wellFormed : Json → Bool
  | .null => true
  | .boolean _ => true
  | .number x => x.wellFormed
  | .string s => isStringBody s.raw
  | .array elements => Json.wellFormedElements elements
  | .object members => Json.wellFormedMembers members

/-- The elements of an array are well-formed. -/
def Json.wellFormedElements : List Json → Bool
  | [] => true
  | v :: vs => v.wellFormed && Json.wellFormedElements vs

/-- The members of an object are well-formed. -/
def Json.wellFormedMembers : List (StringText × Json) → Bool
  | [] => true
  | (name, v) :: ms => isStringBody name.raw && v.wellFormed && Json.wellFormedMembers ms

end

theorem Json.wellFormedMembers_cons {name : StringText} {v : Json} {ms : List (StringText × Json)} :
    Json.wellFormedMembers ((name, v) :: ms) = true ↔
      isStringBody name.raw = true ∧ v.wellFormed = true ∧ Json.wellFormedMembers ms = true := by
  rw [Json.wellFormedMembers, Bool.and_eq_true, Bool.and_eq_true, and_assoc]

/-- A value whose text is valid JSON. -/
structure JsonValue where
  value : Json
  valid : value.wellFormed = true

/-- Its compact text. -/
def JsonValue.text (v : JsonValue) : Bytes :=
  v.value.print

/-! ### Where the quotes stand -/

/-- What may stand behind the closing quote of a string. -/
def AfterString (s : Bytes) : Prop :=
  ∀ c ∈ s.head?, c ∈ ascii ",:]\x7d"

/-- Bytes that may stand outside of a string: neither a quote nor a NUL. -/
def isOutside (c : UInt8) : Bool :=
  c != ch '"' && c != 0

/-- A text whose quotes all belong to its strings. -/
inductive Strings : Bytes → Prop
  | none {s : Bytes} (hs : s.all isOutside = true) : Strings s
  | string {before raw after : Bytes} (hbefore : before.all isOutside = true)
      (hraw : isStringBody raw = true) (hafter : AfterString after) (hrest : Strings after) :
      Strings (before ++ ch '"' :: (raw ++ ch '"' :: after))

theorem quote_not_mem_outside {s : Bytes} (h : s.all isOutside = true) : ch '"' ∉ s := by
  intro hmem
  have hquote := List.all_eq_true.mp h _ hmem
  simp [isOutside] at hquote

theorem Strings.append {s t : Bytes} (hs : s.all isOutside = true) (ht : Strings t) :
    Strings (s ++ t) := by
  cases ht with
  | none ht => exact .none (by rw [List.all_append, hs, ht]; rfl)
  | string hbefore hraw hafter hrest =>
      rw [← List.append_assoc]
      exact .string (by rw [List.all_append, hs, hbefore]; rfl) hraw hafter hrest

theorem Strings.cons {c : UInt8} {t : Bytes} (hc : isOutside c = true) (ht : Strings t) :
    Strings (c :: t) :=
  Strings.append (s := [c]) (by simpa using hc) ht

/-- A string in front of such a text. -/
theorem Strings.quoted {raw t : Bytes} (hraw : isStringBody raw = true) (hafter : AfterString t)
    (ht : Strings t) : Strings (ch '"' :: (raw ++ ch '"' :: t)) := by
  rw [← List.nil_append (ch '"' :: _)]
  exact .string (by simp) hraw hafter ht

/-- A member in front of such a text. -/
theorem Strings.member {name value t : Bytes} (hname : isStringBody name = true)
    (hvalue : Strings (value ++ t)) : Strings (memberText (name, value) ++ t) := by
  have hcolon : AfterString (ch ':' :: (value ++ t)) := by
    intro c hc
    obtain rfl : ch ':' = c := by simpa using hc
    decide
  rw [memberText, List.cons_append, List.append_assoc]
  exact .quoted hname hcolon (.cons rfl hvalue)

theorem digitsText_outside (digits : List (Fin 10)) : (digitsText digits).all isOutside = true := by
  have hdigit : ∀ d : Fin 10, isOutside (48 + UInt8.ofNat d.val) = true := by decide
  rw [List.all_eq_true]
  intro c hc
  obtain ⟨d, -, rfl⟩ := List.mem_map.mp hc
  exact hdigit d

theorem number_outside (x : NumberText) : x.print.all isOutside = true := by
  have hsign : (if x.negative then [ch '-'] else []).all isOutside = true := by
    split <;> rfl
  have hfraction : (fractionText x.fraction).all isOutside = true := by
    cases x.fraction with
    | none => rfl
    | some digits => exact digitsText_outside digits
  have hexponent : (exponentText x.exponent).all isOutside = true := by
    cases x.exponent with
    | none => rfl
    | some e =>
        obtain ⟨upper, sign, digits⟩ := e
        have hdigits := digitsText_outside digits
        simp only [exponentText, ExponentText.print, List.all_cons, List.all_append, hdigits]
        rcases sign with _ | _ | _ <;> cases upper <;> rfl
  simp only [NumberText.print, List.all_append, hsign, digitsText_outside, hfraction, hexponent,
    Bool.and_self]

theorem afterString_itemsTail {close : UInt8} (hclose : close ∈ ascii ",:]\x7d")
    (ts : List Bytes) (w : Bytes) : AfterString (itemsTail close ts ++ w) := by
  intro c hc
  cases ts with
  | nil =>
      obtain rfl : close = c := by simpa [itemsTail] using hc
      exact hclose
  | cons t ts =>
      obtain rfl : ch ',' = c := by simpa [itemsTail] using hc
      decide

mutual

/-- The text of a valid value in front of such a text. -/
theorem Json.strings_print (v : Json) (hv : v.wellFormed = true) {w : Bytes} (hafter : AfterString w)
    (hw : Strings w) : Strings (v.print ++ w) :=
  match v with
  | .null => Strings.append rfl hw
  | .boolean b => by
      rw [Json.print]
      exact Strings.append (by cases b <;> rfl) hw
  | .number x => Strings.append (number_outside x) hw
  | .string s => by
      rw [Json.print, List.cons_append, List.append_assoc]
      exact Strings.quoted hv hafter hw
  | .array [] => Strings.append (s := [ch '[', ch ']']) rfl hw
  | .array (v :: vs) => by
      rw [Json.wellFormed, Json.wellFormedElements, Bool.and_eq_true] at hv
      rw [Json.print, Json.printElements, bracketed, List.cons_append, List.append_assoc]
      exact Strings.cons rfl (Json.strings_print v hv.1
        (afterString_itemsTail (by decide) _ w) (Json.strings_elements vs hv.2 hafter hw))
  | .object [] => Strings.append (s := [ch '{', ch '}']) rfl hw
  | .object ((name, v) :: ms) => by
      rw [Json.wellFormed, Json.wellFormedMembers, Bool.and_eq_true, Bool.and_eq_true] at hv
      rw [Json.print, Json.printMembers, objectText, List.map_cons, bracketed, List.cons_append,
        List.append_assoc]
      exact Strings.cons rfl (Strings.member hv.1.1 (Json.strings_print v hv.1.2
        (afterString_itemsTail (by decide) _ w) (Json.strings_members ms hv.2 hafter hw)))

theorem Json.strings_elements (vs : List Json) (hvs : Json.wellFormedElements vs = true)
    {w : Bytes} (hafter : AfterString w) (hw : Strings w) :
    Strings (itemsTail (ch ']') (Json.printElements vs) ++ w) :=
  match vs with
  | [] => Strings.cons rfl hw
  | v :: vs => by
      rw [Json.wellFormedElements, Bool.and_eq_true] at hvs
      rw [Json.printElements, itemsTail, List.cons_append, List.append_assoc]
      exact Strings.cons rfl (Json.strings_print v hvs.1
        (afterString_itemsTail (by decide) _ w) (Json.strings_elements vs hvs.2 hafter hw))

theorem Json.strings_members (ms : List (StringText × Json))
    (hms : Json.wellFormedMembers ms = true) {w : Bytes} (hafter : AfterString w)
    (hw : Strings w) :
    Strings (itemsTail (ch '}') ((Json.printMembers ms).map memberText) ++ w) :=
  match ms with
  | [] => Strings.cons rfl hw
  | (name, v) :: ms => by
      obtain ⟨hname, hv, htail⟩ := Json.wellFormedMembers_cons.mp hms
      rw [Json.printMembers, List.map_cons, itemsTail, List.cons_append, List.append_assoc]
      exact Strings.cons rfl (Strings.member hname (Json.strings_print v hv
        (afterString_itemsTail (by decide) _ w) (Json.strings_members ms htail hafter hw)))

end

theorem JsonValue.strings (v : JsonValue) : Strings v.text := by
  have h := Json.strings_print v.value v.valid (by simp [AfterString]) (.none (s := []) rfl)
  rwa [List.append_nil] at h

/-- Such a text holds no NUL. -/
theorem Strings.nulFree {s : Bytes} (h : Strings s) : NulFree s := by
  have houtside : ∀ {t : Bytes}, t.all isOutside = true → NulFree t := by
    intro t ht c hc
    have hbyte := List.all_eq_true.mp ht c hc
    simp only [isOutside, Bool.and_eq_true, bne_iff_ne] at hbyte
    exact hbyte.2
  have hquote : NulFree [ch '"'] := by decide
  induction h with
  | none hs => exact houtside hs
  | @string before raw after hbefore hraw hafter hrest ih =>
      have hnul : NulFree raw := StringState.nulFree_of_run (isStringBody_iff.mp hraw)
      exact (houtside hbefore).append (hquote.append (hnul.append (hquote.append ih)))

/-! ### What follows a name -/

/-- A name that is not empty and does not begin like the text behind a string. -/
def isName (name : Bytes) : Bool :=
  isStringBody name && name.head?.any fun c => !(ascii ",:]\x7d").contains c

/-- How the member with a given name begins when its value is a string: `"name":"`. -/
def memberStart (name : Bytes) : Bytes :=
  ch '"' :: (name ++ ascii "\":\"")

/-- Two strings that end with quotes at the same place. -/
theorem eq_of_isStringBody {s s' t t' : Bytes} (hs : isStringBody s = true)
    (hs' : isStringBody s' = true) (h : s ++ ch '"' :: t = s' ++ ch '"' :: t') :
    s = s' ∧ t = t' := by
  have heq : s = s' := by
    rw [← stringAt_append hs t, h, stringAt_append hs' t']
  subst heq
  exact ⟨rfl, (List.cons.inj (List.append_cancel_left h)).2⟩

/-- A string that begins behind a colon. -/
theorem Strings.after_colon {s : Bytes} (h : Strings (ch ':' :: ch '"' :: s)) :
    ∃ raw t, s = raw ++ ch '"' :: t ∧ isStringBody raw = true := by
  generalize hw : ch ':' :: ch '"' :: s = w at h
  cases h with
  | none hs => exact absurd (by rw [← hw]; simp) (quote_not_mem_outside hs)
  | @string before raw after hbefore hraw hafter hrest =>
      rcases before with _ | ⟨c, _ | ⟨d, before⟩⟩
      · exact absurd (List.cons.inj hw).1 (by decide)
      · exact ⟨raw, after, (List.cons.inj (List.cons.inj hw).2).2, hraw⟩
      · rw [List.cons_append, List.cons_append, List.cons.injEq, List.cons.injEq] at hw
        exact absurd (by rw [← hw.2.1]; simp) (quote_not_mem_outside hbefore)

/-- **Occurrences.** What follows `"name":"` in such a text is a string up to its closing
quote. -/
theorem Strings.value_of_occurrence {name w x s : Bytes} (hname : isName name = true)
    (hw : Strings w) (h : w = x ++ (memberStart name ++ s)) :
    ∃ raw t, s = raw ++ ch '"' :: t ∧ isStringBody raw = true := by
  rw [isName, Bool.and_eq_true] at hname
  obtain ⟨hbody, hhead⟩ := hname
  induction hw generalizing x with
  | none hs => exact absurd (by rw [h, memberStart]; simp) (quote_not_mem_outside hs)
  | @string before raw after hbefore hraw hafter hrest ih =>
      -- a string that ends with the name: what follows its quote begins the value
      have hvalue : ∀ {raw : Bytes}, isStringBody raw = true →
          raw ++ ch '"' :: after = name ++ ch '"' :: (ch ':' :: ch '"' :: s) →
          ∃ raw t, s = raw ++ ch '"' :: t ∧ isStringBody raw = true := by
        intro raw hraw heq
        obtain ⟨-, rfl⟩ := eq_of_isStringBody hraw hbody heq
        exact hrest.after_colon
      have hstart : memberStart name ++ s
          = ch '"' :: (name ++ ch '"' :: (ch ':' :: ch '"' :: s)) := by
        simp [memberStart, ascii, ch]
      rw [hstart] at h
      rcases append_cons_eq_append_cons h with ⟨-, hname'⟩ | ⟨u, hu, -⟩ | ⟨u, -, hin⟩
      · exact hvalue hraw hname'
      · exact absurd (by rw [hu]; simp) (quote_not_mem_outside hbefore)
      · rcases append_cons_eq_append_cons hin with ⟨-, hout⟩ | ⟨v, rfl, hname'⟩ | ⟨v, -, hout⟩
        · -- a closing quote is not followed by the name
          cases name with
          | nil => exact absurd hhead (by simp)
          | cons c name =>
              have hc : c ∈ ascii ",:]\x7d" := hafter c (by rw [hout]; rfl)
              exact absurd hhead (by simp [hc])
        · exact hvalue (isStringBody_of_append_quote hraw) hname'.symm
        · exact ih (by rw [hout, hstart])

end PppAmb
