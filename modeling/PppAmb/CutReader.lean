import Mathlib.Data.Fintype.Basic
import Mathlib.Tactic.FinCases
import PppAmb.JsonReader
import PppAmb.JsonText

/-!
# Reading a Cut Text

What the JSON reader makes of a text of which only the first bytes have arrived. Every
statement is about `(text ++ tail).take n`: the text may be followed by something, and the
cut may be anywhere.

## Main results

* `reads_print`: if a value is read from the front of a cut text, then all of its text has
  been read, up to the cut.
* `readMembers_cut`: the members of a cut object are read in order up to some point.
-/

namespace PppAmb

/-! ### Tokens -/

/-- If the input does not begin with a comment, there is nothing to skip. -/
theorem skipCommentTokens_eq {inp : Bytes} (h : (readToken inp).1 ≠ .comment) (n : ℕ) :
    skipCommentTokens n inp = readToken inp := by
  cases n with
  | zero => rfl
  | succ n =>
      rw [skipCommentTokens]
      split
      · rename_i heq
        rw [heq] at h
        exact absurd rfl h
      · rfl

/-- At the end of the text there is no token. -/
@[simp] theorem readToken_nil : readToken [] = (.endOfStream, []) := rfl

/-- An opening brace. -/
@[simp] theorem readToken_objectBegin (r : Bytes) :
    readToken (ch '{' :: r) = (.objectBegin, r) := rfl

/-- A closing brace. -/
@[simp] theorem readToken_objectEnd (r : Bytes) : readToken (ch '}' :: r) = (.objectEnd, r) := rfl

/-- An opening bracket. -/
@[simp] theorem readToken_arrayBegin (r : Bytes) : readToken (ch '[' :: r) = (.arrayBegin, r) := rfl

/-- A closing bracket. -/
@[simp] theorem readToken_arrayEnd (r : Bytes) : readToken (ch ']' :: r) = (.arrayEnd, r) := rfl

/-- A comma. -/
@[simp] theorem readToken_comma (r : Bytes) : readToken (ch ',' :: r) = (.arraySeparator, r) := rfl

/-- A colon. -/
@[simp] theorem readToken_colon (r : Bytes) : readToken (ch ':' :: r) = (.memberSeparator, r) := rfl

/-- A quote begins a string; one that does not end is no token. -/
theorem readToken_quote (r : Bytes) : readToken (ch '"' :: r) =
    match readString r with
    | some (raw, r) => (.string raw, r)
    | none => (.error, []) := rfl

/-! ### Strings -/

/-- A plain byte neither ends a string nor begins an escape. -/
theorem plain_ne {c : UInt8} (h : isPlain c = true) : c ≠ ch '"' ∧ c ≠ ch '\\' := by
  simp only [isPlain, Bool.and_eq_true, bne_iff_ne] at h
  exact ⟨h.1.2, h.2⟩

/-- A quote ends the string. -/
theorem readString_quote (r : Bytes) : readString (ch '"' :: r) = some ([], r) := by
  cases r <;> rfl

/-- A plain byte belongs to the string. -/
theorem readString_plain {c : UInt8} (h : isPlain c = true) (r : Bytes) :
    readString (c :: r) = (readString r).map fun q => (c :: q.1, q.2) := by
  obtain ⟨hquote, hslash⟩ := plain_ne h
  cases r with
  | nil => simp [readString, hquote]
  | cons e r => simp [readString, hquote, hslash]

/-- The byte behind a backslash belongs to the string, also where it is a quote. -/
theorem readString_escape (e : UInt8) (r : Bytes) :
    readString (ch '\\' :: e :: r) = (readString r).map fun q => (ch '\\' :: e :: q.1, q.2) := by
  simp [readString]

/-- A cut string ends at its closing quote, or it does not end. -/
theorem readString_cut {raw : Bytes} (hraw : isRawString raw = true) (tail : Bytes) (n : ℕ) :
    readString ((raw ++ ch '"' :: tail).take n) = none ∨
      readString ((raw ++ ch '"' :: tail).take n) = some (raw, tail.take (n - (raw.length + 1))) := by
  -- along the recursion of `isRawString`; every step takes one item off the cut text
  fun_induction isRawString raw generalizing n with
  | case1 =>
      cases n with
      | zero => exact Or.inl rfl
      | succ n => exact Or.inr (by simp [readString_quote])
  | case2 c =>
      rcases n with _ | _ | n
      · exact Or.inl rfl
      · exact Or.inl (by simp [readString_plain hraw, readString])
      · exact Or.inr (by simp [readString_plain hraw, readString_quote])
  | case3 e r ih =>
      simp only [Bool.and_eq_true] at hraw
      rcases n with _ | _ | n
      · exact Or.inl rfl
      · exact Or.inl rfl
      · have hlen : n + 1 + 1 - (r.length + 1 + 1 + 1) = n - (r.length + 1) := by omega
        rcases ih hraw.2 n with h | h
        · exact Or.inl (by simp [readString_escape, h])
        · exact Or.inr (by simp [readString_escape, h, hlen])
  | case4 c e r hc ih =>
      simp only [Bool.and_eq_true] at hraw
      cases n with
      | zero => exact Or.inl rfl
      | succ n =>
          have hlen : n + 1 - (r.length + 1 + 1 + 1) = n - (r.length + 1 + 1) := by omega
          simp only [List.cons_append, List.length_cons] at ih
          simp only [List.cons_append, List.take_succ_cons, readString_plain hraw.1, List.length_cons]
          rcases ih hraw.2 n with h | h
          · exact Or.inl (by rw [h]; rfl)
          · exact Or.inr (by rw [h, hlen]; rfl)

/-! ### Numbers -/

/-- What may stand behind a value. -/
def Follows (tail : Bytes) : Prop :=
  ∀ c, tail.head? = some c → c = ch ',' ∨ c = ch '}' ∨ c = ch ']'

/-- What follows a value may be cut as well. -/
theorem Follows.take {tail : Bytes} (h : Follows tail) (n : ℕ) : Follows (tail.take n) := by
  intro c hc
  cases n with
  | zero => exact absurd hc (by simp)
  | succ n =>
      cases tail with
      | nil => exact absurd hc (by simp)
      | cons d r => exact h c hc

/-- The text of some digits is made of digits. -/
theorem isDigit_of_mem {digits : List (Fin 10)} {c : UInt8} (h : c ∈ digitsText digits) :
    isDigit c = true := by
  obtain ⟨d, -, rfl⟩ := List.mem_map.mp h
  clear h
  revert d
  decide

/-- A cut run of digits is passed over. -/
theorem spanDigits_cut (digits : List (Fin 10)) {tail : Bytes}
    (htail : ∀ c, tail.head? = some c → isDigit c = false) (n : ℕ) :
    (spanDigits ((digitsText digits ++ tail).take n)).2 = tail.take (n - digits.length) := by
  have hlen : (digitsText digits).length = digits.length := List.length_map _
  rw [spanDigits, List.take_append, hlen]
  dsimp only
  rw [List.dropWhile_append_of_pos]
  · generalize n - digits.length = m
    cases m with
    | zero => rfl
    | succ m =>
        cases tail with
        | nil => rfl
        | cons c r => simp [htail c rfl]
  · intro c hc
    exact isDigit_of_mem (List.mem_of_mem_take hc)

/-- The first byte of two texts is that of the first one, unless it is empty. -/
theorem head?_append_cases {s t : Bytes} {c : UInt8} (h : (s ++ t).head? = some c) :
    s.head? = some c ∨ s = [] ∧ t.head? = some c := by
  cases s with
  | nil => exact Or.inr ⟨rfl, h⟩
  | cons d s => exact Or.inl h

/-- What follows a number does not go on with a digit. -/
theorem Follows.not_digit {tail : Bytes} (h : Follows tail) :
    ∀ c, tail.head? = some c → isDigit c = false := by
  intro c hc
  rcases h c hc with rfl | rfl | rfl <;> decide

/-- A cut fraction is passed over. -/
theorem spanFraction_cut (fraction : Option (List (Fin 10))) {tail : Bytes}
    (hdigit : ∀ c, tail.head? = some c → isDigit c = false)
    (hdot : ∀ c, tail.head? = some c → c ≠ ch '.') (n : ℕ) :
    (spanFraction ((fractionText fraction ++ tail).take n)).2
      = tail.take (n - (fractionText fraction).length) := by
  cases n with
  | zero => simp [spanFraction]
  | succ n =>
      cases fraction with
      | none =>
          cases tail with
          | nil => rfl
          | cons c r => simp [fractionText, spanFraction, hdot c rfl]
      | some digits =>
          have hspan := spanDigits_cut digits hdigit n
          have hlen : (digitsText digits).length = digits.length := List.length_map _
          simpa [fractionText, spanFraction, hlen] using hspan

/-- An exponent with a sign reaches as far as its digits. -/
theorem spanExponent_signed {c d : UInt8} (hc : c = ch 'e' ∨ c = ch 'E')
    (hd : d = ch '+' ∨ d = ch '-') (r : Bytes) :
    (spanExponent (c :: d :: r)).2 = (spanDigits r).2 := by
  rcases hc with rfl | rfl <;> rcases hd with rfl | rfl <;> rfl

/-- An exponent without a sign reaches as far as its digits. -/
theorem spanExponent_unsigned {c : UInt8} (hc : c = ch 'e' ∨ c = ch 'E') {r : Bytes}
    (hr : ∀ d, r.head? = some d → d ≠ ch '+' ∧ d ≠ ch '-') :
    (spanExponent (c :: r)).2 = (spanDigits r).2 := by
  cases r with
  | nil => rcases hc with rfl | rfl <;> rfl
  | cons d r =>
      obtain ⟨hplus, hminus⟩ := hr d rfl
      rcases hc with rfl | rfl <;> simp [spanExponent, hplus, hminus]

/-- What follows the mark of an exponent that has no sign is no sign. -/
theorem head_unsigned (digits : List (Fin 10)) {tail : Bytes} (htail : Follows tail) (n : ℕ)
    {d : UInt8} (hd : ((digitsText digits ++ tail).take n).head? = some d) :
    d ≠ ch '+' ∧ d ≠ ch '-' := by
  have hd' : (digitsText digits ++ tail).head? = some d := by
    cases n with
    | zero => exact absurd hd (by simp)
    | succ n => simpa [List.head?_take] using hd
  rcases head?_append_cases hd' with h | ⟨-, h⟩
  · have hdigit := isDigit_of_mem (List.mem_of_head? h)
    constructor <;> rintro rfl <;> exact absurd hdigit (by decide)
  · rcases htail d h with rfl | rfl | rfl <;> decide

/-- A cut exponent is passed over. -/
theorem spanExponent_cut (exponent : Option ExponentText) {tail : Bytes} (htail : Follows tail)
    (n : ℕ) : (spanExponent ((exponentText exponent ++ tail).take n)).2
      = tail.take (n - (exponentText exponent).length) := by
  cases n with
  | zero => simp [spanExponent]
  | succ n =>
      cases exponent with
      | none =>
          cases tail with
          | nil => rfl
          | cons c r => rcases htail c rfl with rfl | rfl | rfl <;> rfl
      | some e =>
          obtain ⟨upper, sign, digits⟩ := e
          have hmark : (if upper then ch 'E' else ch 'e') = ch 'e' ∨
              (if upper then ch 'E' else ch 'e') = ch 'E' := by cases upper <;> simp
          have hlen : (digitsText digits).length = digits.length := List.length_map _
          have hspan := spanDigits_cut digits htail.not_digit
          cases sign with
          | none =>
              have hhead := fun d => head_unsigned digits htail n (d := d)
              simpa [exponentText, ExponentText.print, spanExponent_unsigned hmark hhead, hlen]
                using hspan n
          | some negative =>
              cases n with
              | zero => cases upper <;> cases negative <;> simp [exponentText, ExponentText.print,
                  spanExponent]
              | succ n =>
                  have hn : n + 1 + 1 - (digits.length + 1 + 1) = n - digits.length := by omega
                  cases negative with
                  | true => simpa [exponentText, ExponentText.print,
                      spanExponent_signed hmark (Or.inr rfl), hlen, hn] using hspan n
                  | false => simpa [exponentText, ExponentText.print,
                      spanExponent_signed hmark (Or.inl rfl), hlen, hn] using hspan n

/-- How what stands behind a fraction can begin. -/
theorem exponent_head {exponent : Option ExponentText} {tail : Bytes} :
    ∀ c, (exponentText exponent ++ tail).head? = some c →
      c = ch 'e' ∨ c = ch 'E' ∨ tail.head? = some c := by
  intro c hc
  cases exponent with
  | none => exact Or.inr (Or.inr hc)
  | some e =>
      obtain ⟨upper, sign, digits⟩ := e
      cases upper <;> simp [exponentText, ExponentText.print] at hc <;> simp [hc]

/-- What follows the digits of a number is no digit. -/
theorem fraction_head {fraction : Option (List (Fin 10))} {exponent : Option ExponentText}
    {tail : Bytes} (htail : Follows tail) :
    ∀ c, (fractionText fraction ++ (exponentText exponent ++ tail)).head? = some c →
      isDigit c = false := by
  intro c hc
  cases fraction with
  | some digits =>
      obtain rfl : ch '.' = c := by simpa [fractionText] using hc
      decide
  | none =>
      rcases exponent_head c hc with rfl | rfl | h
      · decide
      · decide
      · exact htail.not_digit c h

/-- A cut number is passed over. -/
theorem readNumber_cut (integral : List (Fin 10)) (fraction : Option (List (Fin 10)))
    (exponent : Option ExponentText) {tail : Bytes} (htail : Follows tail) (n : ℕ) :
    (readNumber ((digitsText integral ++ (fractionText fraction
        ++ (exponentText exponent ++ tail))).take n)).2
      = tail.take (n - (integral.length + ((fractionText fraction).length
        + (exponentText exponent).length))) := by
  have hdot : ∀ c, (exponentText exponent ++ tail).head? = some c → c ≠ ch '.' := by
    intro c hc
    rcases exponent_head c hc with rfl | rfl | h
    · decide
    · decide
    · rcases htail c h with rfl | rfl | rfl <;> decide
  have hdigit : ∀ c, (exponentText exponent ++ tail).head? = some c → isDigit c = false :=
    @fraction_head none exponent tail htail
  simp only [readNumber]
  rw [spanDigits_cut integral (fraction_head htail), spanFraction_cut fraction hdigit hdot,
    spanExponent_cut exponent htail]
  congr 1
  omega

/-! ### Values -/

/-- **Reading a cut value.** If the reader succeeds on a text that is cut at some place and
followed by something, then it has read the text up to the cut, and nothing more. -/
def Reads (readValue : Value → Bytes → ReadResult) (text : Bytes) : Prop :=
  ∀ current tail n, Follows tail → ∀ v r,
    readValue current ((text ++ tail).take n) = some (true, v, r) →
      r = tail.take (n - text.length)

/-- Nothing is read from an empty text. -/
theorem readValue_nil {depth : ℕ} {current v : Value} {r : Bytes} :
    readValue depth current [] ≠ some (true, v, r) := by
  cases depth <;> simp [readValue, skipCommentTokens]

/-- A word that is cut is an error, and one that is there is consumed. -/
theorem matchLiteral_cut (pattern tail : Bytes) (token : Token) (n : ℕ) :
    (matchLiteral pattern token ((pattern ++ tail).take n)).1 = .error ∨
      matchLiteral pattern token ((pattern ++ tail).take n)
        = (token, tail.take (n - pattern.length)) := by
  rw [matchLiteral]
  split
  · refine Or.inr ?_
    rw [List.drop_take, List.drop_left]
  · exact Or.inl rfl

/-- A text behind whose first byte the token ends, or is an error. -/
theorem reads_literal {c : UInt8} {pattern : Bytes} {token : Token} (depth : ℕ)
    (hread : ∀ r, readToken (c :: r) = matchLiteral pattern token r) (htoken : token ≠ .comment)
    (hvalue : ∀ current inp r, skipCommentTokens (List.length inp) inp = (token, r) →
      ∃ v, readValue (depth + 1) current inp = some (true, v, r)) :
    Reads (readValue (depth + 1)) (c :: pattern) := by
  intro current tail n _ v r h
  cases n with
  | zero => exact absurd h readValue_nil
  | succ n =>
      rw [List.cons_append, List.take_succ_cons] at h
      have hn : n + 1 - (pattern.length + 1) = n - pattern.length := by omega
      rw [List.length_cons, hn]
      rcases matchLiteral_cut pattern tail token n with hm | hm
      · rw [readValue, skipCommentTokens_eq (by rw [hread, hm]; simp), hread] at h
        generalize matchLiteral pattern token ((pattern ++ tail).take n) = p at h hm
        obtain ⟨t, rest⟩ := p
        obtain rfl : t = .error := hm
        exact absurd h (by simp)
      · have htok : skipCommentTokens (c :: (pattern ++ tail).take n).length
            (c :: (pattern ++ tail).take n) = (token, tail.take (n - pattern.length)) := by
          rw [skipCommentTokens_eq (by rw [hread, hm]; exact htoken), hread, hm]
        obtain ⟨w, hw⟩ := hvalue current _ _ htok
        rw [hw] at h
        simp only [Option.some.injEq, Prod.mk.injEq] at h
        exact h.2.2.symm

/-- A digit begins a number. -/
theorem readToken_digit (d : Fin 10) (r : Bytes) :
    ∃ text, readToken ((48 + UInt8.ofNat d.val) :: r) = (.number text, (readNumber r).2) := by
  fin_cases d <;> exact ⟨_, rfl⟩

/-- A minus sign begins a number. -/
theorem readToken_minus (r : Bytes) :
    ∃ text, readToken (ch '-' :: r) = (.number text, (readNumber r).2) :=
  ⟨_, rfl⟩

/-- After a number token nothing more is read. -/
theorem readValue_number {inp text rest : Bytes} (h : readToken inp = (.number text, rest))
    (depth : ℕ) (current : Value) {v : Value} {r : Bytes}
    (hread : readValue (depth + 1) current inp = some (true, v, r)) : r = rest := by
  rw [readValue, skipCommentTokens_eq (by rw [h]; simp), h] at hread
  dsimp only at hread
  split at hread
  · simp only [Option.some.injEq, Prod.mk.injEq] at hread
    exact hread.2.2.symm
  · exact absurd hread (by simp)

/-- A number that is cut is a shorter number, which ends where the text does, or an error. -/
theorem reads_number (depth : ℕ) (x : NumberText) : Reads (readValue (depth + 1)) x.print := by
  intro current tail n htail v r h
  obtain ⟨negative, first, integral, fraction, exponent⟩ := x
  cases n with
  | zero => exact absurd h readValue_nil
  | succ n =>
      have hlen : ∀ digits, (digitsText digits).length = digits.length := fun _ => List.length_map _
      cases negative with
      | true =>
          obtain ⟨text, htok⟩ := readToken_minus ((digitsText (first :: integral) ++
            (fractionText fraction ++ (exponentText exponent ++ tail))).take n)
          have hrest := readNumber_cut (first :: integral) fraction exponent htail n
          simp only [NumberText.print, if_true, List.append_assoc, List.singleton_append] at h
          rw [readValue_number htok depth current h, hrest]
          congr 1
          simp only [NumberText.print, if_true, List.length_append, List.length_singleton, hlen]
          omega
      | false =>
          obtain ⟨text, htok⟩ := readToken_digit first ((digitsText integral ++
            (fractionText fraction ++ (exponentText exponent ++ tail))).take n)
          have hrest := readNumber_cut integral fraction exponent htail n
          have hcons : digitsText (first :: integral)
              = (48 + UInt8.ofNat first.val) :: digitsText integral := rfl
          simp only [NumberText.print, Bool.false_eq_true, if_false, List.append_assoc,
            List.nil_append, hcons, List.cons_append, List.take_succ_cons] at h
          rw [readValue_number htok depth current h, hrest]
          congr 1
          simp only [NumberText.print, Bool.false_eq_true, if_false, List.length_append,
            List.length_nil, hlen, List.length_cons]
          omega

/-- A string that is cut is not read. -/
theorem reads_string (depth : ℕ) (s : StringText) :
    Reads (readValue (depth + 1)) (ch '"' :: (s.raw ++ [ch '"'])) := by
  intro current tail n _ v r h
  cases n with
  | zero => exact absurd h readValue_nil
  | succ n =>
      simp only [List.cons_append, List.append_assoc, List.take_succ_cons, List.nil_append] at h
      have hn : n + 1 - (ch '"' :: (s.raw ++ [ch '"'])).length = n - (s.raw.length + 1) := by
        simp only [List.length_cons, List.length_append, List.length_nil]
        omega
      rw [hn]
      have htok := readToken_quote ((s.raw ++ ch '"' :: tail).take n)
      rcases readString_cut s.valid tail n with hs | hs
      · rw [hs] at htok
        rw [readValue, skipCommentTokens_eq (by rw [htok]; simp), htok] at h
        exact absurd h (by simp)
      · rw [hs] at htok
        rw [readValue, skipCommentTokens_eq (by rw [htok]; simp), htok] at h
        dsimp only at h
        split at h
        · simp only [Option.some.injEq, Prod.mk.injEq] at h
          exact h.2.2.symm
        · exact absurd h (by simp)

/-- What stands behind an item of an array or of an object is no part of it. -/
theorem follows_itemsTail {close : UInt8} (hclose : close = ch '}' ∨ close = ch ']')
    (ts : List Bytes) (tail : Bytes) : Follows (itemsTail close ts ++ tail) := by
  intro c hc
  cases ts with
  | nil =>
      obtain rfl : close = c := by simpa [itemsTail] using hc
      exact Or.inr hclose
  | cons t ts => exact Or.inl (by simpa [itemsTail, eq_comm] using hc)

/-- If the elements of a cut array are read, then all of its text has been read. -/
theorem readElements_cut {readValue : Value → Bytes → ReadResult} (fuel : ℕ) :
    ∀ (elements : List Value) (t : Bytes) (ts : List Bytes) (tail : Bytes) (n : ℕ),
      (∀ t' ∈ t :: ts, Reads readValue t') → ∀ v r,
      readElements readValue fuel elements ((t ++ (itemsTail (ch ']') ts ++ tail)).take n)
        = some (true, v, r) →
      r = tail.take (n - (t.length + (itemsTail (ch ']') ts).length)) := by
  induction fuel with
  | zero =>
      intro elements t ts tail n _ v r h
      exact absurd h (by simp [readElements])
  | succ fuel ih =>
      intro elements t ts tail n hall v r h
      obtain ⟨hread, hrest⟩ := List.forall_mem_cons.mp hall
      have hvalue := hread .nullValue _ n (follows_itemsTail (Or.inr rfl) ts tail)
      rw [readElements] at h
      split at h
      · exact absurd h (by simp)
      · rename_i ok w r₁ heq
        cases ok with
        | false => exact absurd h (by simp)
        | true =>
            rw [hvalue w r₁ heq] at h
            have hsub : n - (t.length + (itemsTail (ch ']') ts).length)
                = n - t.length - (itemsTail (ch ']') ts).length := by omega
            rw [hsub]
            generalize n - t.length = m at h
            cases m with
            | zero => exact absurd h (by simp [skipCommentTokens])
            | succ m =>
                cases ts with
                | nil =>
                    simp only [itemsTail, List.singleton_append, List.take_succ_cons, if_true] at h
                    rw [skipCommentTokens_eq (by simp), readToken_arrayEnd] at h
                    simp only [Option.some.injEq, Prod.mk.injEq] at h
                    simp [itemsTail, h.2.2]
                | cons t' ts =>
                    simp only [itemsTail, List.cons_append, List.append_assoc, List.take_succ_cons,
                      if_true] at h
                    rw [skipCommentTokens_eq (by simp), readToken_comma] at h
                    rw [ih _ t' ts tail m hrest v r h]
                    congr 1
                    simp only [itemsTail, List.length_cons, List.length_append]
                    omega

/-- The members of an object that is read in part: each is stored under its decoded name,
in order, and reading stops at some point. -/
inductive Stored : List (Bytes × Bytes) → List (Bytes × Value) → List (Bytes × Value) → Prop
  | stop (ms : List (Bytes × Bytes)) (members : List (Bytes × Value)) : Stored ms members members
  | member {m : Bytes × Bytes} {ms : List (Bytes × Bytes)} {name : Bytes} {v : Value}
      {members out : List (Bytes × Value)} (hname : decodeString m.1 = some name)
      (hrest : Stored ms (setMember name v members) out) : Stored (m :: ms) members out

/-- What is known after the members of a cut object have been read. -/
def MembersRead (ms : List (Bytes × Bytes)) (members : List (Bytes × Value)) (left : Bytes)
    (res : ReadResult) : Prop :=
  ∀ ok v r, res = some (ok, v, r) →
    (∃ out, v = .objectValue out ∧ Stored ms members out) ∧ (ok = true → r = left)

/-- A reader that fails keeps the members so far. -/
theorem membersRead_failed {ms : List (Bytes × Bytes)} {members out : List (Bytes × Value)}
    (h : Stored ms members out) (left rest : Bytes) :
    MembersRead ms members left (some (false, .objectValue out, rest)) := by
  intro ok v r heq
  simp only [Option.some.injEq, Prod.mk.injEq] at heq
  obtain ⟨rfl, rfl, rfl⟩ := heq
  exact ⟨⟨out, rfl, h⟩, fun hok => absurd hok (by simp)⟩

/-- A reader that succeeds has read the text up to the brace. -/
theorem membersRead_ended {ms : List (Bytes × Bytes)} {members out : List (Bytes × Value)}
    (h : Stored ms members out) (left : Bytes) :
    MembersRead ms members left (some (true, .objectValue out, left)) := by
  intro ok v r heq
  simp only [Option.some.injEq, Prod.mk.injEq] at heq
  obtain ⟨rfl, rfl, rfl⟩ := heq
  exact ⟨⟨out, rfl, h⟩, fun _ => rfl⟩

/-- One more member is read, and the rest as it was. -/
theorem membersRead_member {m : Bytes × Bytes} {ms : List (Bytes × Bytes)} {name : Bytes}
    {v : Value} {members : List (Bytes × Value)} (hname : decodeString m.1 = some name)
    {left : Bytes} {res : ReadResult} (h : MembersRead ms (setMember name v members) left res) :
    MembersRead (m :: ms) members left res := by
  intro ok w r heq
  obtain ⟨⟨out, hw, hout⟩, hleft⟩ := h ok w r heq
  exact ⟨⟨out, hw, .member hname hout⟩, hleft⟩

/-- **Reading the members of a cut object.** The members are stored in order up to some
point; and if the closing brace is found, then all of the text has been read. -/
theorem readMembers_cut {readValue : Value → Bytes → ReadResult} (fuel : ℕ) :
    ∀ (name : Bytes) (members : List (Bytes × Value)) (m : Bytes × Bytes)
      (ms : List (Bytes × Bytes)) (tail : Bytes) (n : ℕ),
      (∀ m' ∈ m :: ms, isRawString m'.1 = true ∧ Reads readValue m'.2) →
      MembersRead (m :: ms) members
        (tail.take (n - ((memberText m).length + (itemsTail (ch '}') (ms.map memberText)).length)))
        (readMembers readValue fuel name members
          ((memberText m ++ (itemsTail (ch '}') (ms.map memberText) ++ tail)).take n)) := by
  induction fuel with
  | zero =>
      intro name members m ms tail n _
      exact membersRead_failed (.stop _ _) _ _
  | succ fuel ih =>
      intro name members m ms tail n hall
      obtain ⟨⟨hraw, hvalue⟩, hrest⟩ := List.forall_mem_cons.mp hall
      obtain ⟨raw, text⟩ := m
      dsimp only at hraw hvalue
      have hread := fun current n => hvalue current _ n
        (follows_itemsTail (Or.inl rfl) (ms.map memberText) tail)
      have hlen : (memberText (raw, text)).length = raw.length + text.length + 3 := by
        simp only [memberText, List.length_cons, List.length_append]
        omega
      rw [hlen]
      cases n with
      | zero => exact membersRead_failed (.stop _ _) _ _
      | succ n =>
          simp only [memberText, List.cons_append, List.append_assoc, List.take_succ_cons,
            readMembers]
          have htok := readToken_quote ((raw ++ ch '"' :: ch ':' :: (text ++
            (itemsTail (ch '}') (ms.map memberText) ++ tail))).take n)
          rcases readString_cut hraw
            (ch ':' :: (text ++ (itemsTail (ch '}') (ms.map memberText) ++ tail))) n with hs | hs
          · -- the cut is inside the name
            rw [hs] at htok
            rw [skipCommentTokens_eq (by rw [htok]; simp), htok]
            exact membersRead_failed (.stop _ _) _ _
          · rw [hs] at htok
            rw [skipCommentTokens_eq (by rw [htok]; simp), htok]
            dsimp only
            cases hname : decodeString raw with
            | none => exact membersRead_failed (.stop _ _) _ _
            | some decoded =>
                dsimp only
                have hleft : n + 1 - (raw.length + text.length + 3
                      + (itemsTail (ch '}') (ms.map memberText)).length)
                    = n - (raw.length + 1) - 1 - text.length
                      - (itemsTail (ch '}') (ms.map memberText)).length := by omega
                rw [hleft]
                generalize n - (raw.length + 1) = k
                cases k with
                | zero => exact membersRead_failed (.stop _ _) _ _
                | succ k =>
                    rw [List.take_succ_cons, readToken_colon, Nat.add_sub_cancel]
                    dsimp only
                    split
                    · intro ok v r h
                      exact absurd h (by simp)
                    · rename_i ok w r₁ heq
                      have hstored : Stored ((raw, text) :: ms) members (setMember decoded w members) :=
                        .member hname (.stop _ _)
                      cases ok with
                      | false => exact membersRead_failed hstored _ _
                      | true =>
                          rw [hread _ _ w r₁ heq, if_pos rfl]
                          generalize k - text.length = j
                          cases j with
                          | zero => exact membersRead_failed hstored _ _
                          | succ j =>
                              cases ms with
                              | nil =>
                                  have hend := membersRead_ended hstored (tail.take j)
                                  simpa [itemsTail] using hend
                              | cons m ms =>
                                  have hmore := ih decoded (setMember decoded w members) m ms tail j
                                    hrest
                                  have hj : j + 1 - (itemsTail (ch '}')
                                        ((m :: ms).map memberText)).length
                                      = j - ((memberText m).length
                                        + (itemsTail (ch '}') (ms.map memberText)).length) := by
                                    simp only [List.map_cons, itemsTail, List.length_cons,
                                      List.length_append]
                                    omega
                                  rw [hj]
                                  simp only [List.map_cons, itemsTail, List.cons_append,
                                    List.append_assoc, List.take_succ_cons, readToken_comma]
                                  exact membersRead_member hname hmore

/-- The text begins neither with white space nor with a closing bracket. -/
def beginsValue : Bytes → Bool
  | [] => false
  | c :: _ => !isJsonSpace c && c != ch ']'

/-- A number begins a value. -/
theorem beginsValue_number (x : NumberText) : beginsValue x.print = true := by
  obtain ⟨negative, first, integral, fraction, exponent⟩ := x
  cases negative with
  | true => rfl
  | false => fin_cases first <;> rfl

/-- Every text of a value begins so. -/
theorem beginsValue_print (v : Json) : beginsValue v.print = true := by
  cases v with
  | null => rfl
  | boolean b => cases b <;> rfl
  | number x => exact beginsValue_number x
  | string s => rfl
  | array elements =>
      rw [Json.print]
      cases Json.printElements elements <;> rfl
  | object members =>
      rw [Json.print, objectText]
      cases Json.printMembers members <;> rfl

/-- An array that is cut behind its opening bracket is not read. -/
theorem readArray_nil {depth : ℕ} {v : Value} {r : Bytes} :
    readArray (readValue depth) [] ≠ some (true, v, r) := by
  intro h
  simp only [readArray, skipSpaces, List.dropWhile_nil, readElements] at h
  split at h
  · exact absurd h (by simp)
  · rename_i ok w r₁ heq
    cases ok with
    | true => exact readValue_nil heq
    | false => exact absurd h (by simp)

/-- An array that is read has its closing bracket, whatever becomes of its elements at the cut. -/
theorem reads_array {depth : ℕ} {ts : List Bytes}
    (h : ∀ t ∈ ts, beginsValue t = true ∧ Reads (readValue depth) t) :
    Reads (readValue (depth + 1)) (bracketed (ch '[') (ch ']') ts) := by
  intro current tail n _ v r hread
  cases n with
  | zero => exact absurd hread readValue_nil
  | succ n =>
      cases n with
      | zero =>
          cases ts <;> exact absurd hread readArray_nil
      | succ n =>
          cases ts with
          | nil =>
              have hread' : some (true, Value.arrayValue [], tail.take n) = some (true, v, r) := hread
              simp only [Option.some.injEq, Prod.mk.injEq] at hread'
              simp [bracketed, hread'.2.2]
          | cons t ts =>
              have hbegins := (h t List.mem_cons_self).1
              obtain ⟨c, t', rfl⟩ : ∃ c t', t = c :: t' :=
                List.exists_cons_of_ne_nil (by rintro rfl; exact absurd hbegins (by simp [beginsValue]))
              obtain ⟨hspace, hne⟩ : isJsonSpace c = false ∧ c ≠ ch ']' := by
                simpa [beginsValue] using hbegins
              have hskip : skipSpaces (c :: (t' ++ (itemsTail (ch ']') ts ++ tail)).take n)
                  = c :: (t' ++ (itemsTail (ch ']') ts ++ tail)).take n := by
                simp [skipSpaces, hspace]
              simp only [bracketed, List.cons_append, List.append_assoc, List.take_succ_cons,
                readValue] at hread
              rw [skipCommentTokens_eq (by simp), readToken_arrayBegin] at hread
              simp only [readArray, hskip, hne, if_false] at hread
              have hcut := readElements_cut _ [] (c :: t') ts tail (n + 1)
                (fun t ht => (h t ht).2) v r hread
              rw [hcut]
              congr 1
              simp only [bracketed, List.length_cons, List.length_append]
              omega

/-- The members of a cut object, from its opening brace on. -/
theorem readObject_cut {depth : ℕ} {ms : List (Bytes × Bytes)}
    (h : ∀ m ∈ ms, isRawString m.1 = true ∧ Reads (readValue depth) m.2) (current : Value)
    (tail : Bytes) (n : ℕ) :
    MembersRead ms [] (tail.take (n + 1 - (objectText ms).length))
      (readValue (depth + 1) current ((objectText ms ++ tail).take (n + 1))) := by
  cases ms with
  | nil =>
      simp only [objectText, List.map_nil, bracketed, List.cons_append, List.nil_append,
        List.take_succ_cons, readValue]
      rw [skipCommentTokens_eq (by simp), readToken_objectBegin]
      cases n with
      | zero => exact membersRead_failed (.stop _ _) _ _
      | succ n =>
          simp only [List.take_succ_cons, readMembers]
          rw [skipCommentTokens_eq (by simp), readToken_objectEnd]
          exact membersRead_ended (.stop _ _) _
  | cons m ms =>
      simp only [objectText, List.map_cons, bracketed, List.cons_append, List.append_assoc,
        List.take_succ_cons, readValue]
      rw [skipCommentTokens_eq (by simp), readToken_objectBegin]
      have hn : n + 1 - (ch '{' :: (memberText m ++ itemsTail (ch '}') (ms.map memberText))).length
          = n - ((memberText m).length + (itemsTail (ch '}') (ms.map memberText)).length) := by
        simp only [List.length_cons, List.length_append]
        omega
      rw [hn]
      exact readMembers_cut _ [] [] m ms tail n h

/-- An object that is read has its closing brace. -/
theorem reads_object {depth : ℕ} {ms : List (Bytes × Bytes)}
    (h : ∀ m ∈ ms, isRawString m.1 = true ∧ Reads (readValue depth) m.2) :
    Reads (readValue (depth + 1)) (objectText ms) := by
  intro current tail n _ v r hread
  cases n with
  | zero => exact absurd hread readValue_nil
  | succ n => exact (readObject_cut h current tail n true v r hread).2 rfl

/-- **Reading a cut value.** If a value is read from the front of a cut text, then all of
its text has been read, up to the cut. -/
theorem reads_print (depth : ℕ) (v : Json) : Reads (readValue depth) v.print := by
  -- on the number of nodes that may still be pushed: the parts of a value are read with one less
  induction depth generalizing v with
  | zero =>
      intro current tail n _ w r h
      exact absurd h (by simp [readValue])
  | succ depth ih =>
      cases v with
      | null =>
          rw [Json.print]
          refine reads_literal depth (fun _ => rfl) (by simp) fun current inp r htok => ?_
          exact ⟨_, by rw [readValue, htok]⟩
      | boolean b =>
          cases b with
          | true =>
              rw [Json.print, if_pos rfl]
              refine reads_literal depth (fun _ => rfl) (by simp) fun current inp r htok => ?_
              exact ⟨_, by rw [readValue, htok]⟩
          | false =>
              rw [Json.print, if_neg (by simp)]
              refine reads_literal depth (fun _ => rfl) (by simp) fun current inp r htok => ?_
              exact ⟨_, by rw [readValue, htok]⟩
      | number x =>
          rw [Json.print]
          exact reads_number depth x
      | string s =>
          rw [Json.print]
          exact reads_string depth s
      | array elements =>
          rw [Json.print]
          refine reads_array fun t ht => ?_
          obtain ⟨v, rfl⟩ := Json.mem_printElements ht
          exact ⟨beginsValue_print v, ih v⟩
      | object members =>
          rw [Json.print]
          refine reads_object fun m hm => ?_
          obtain ⟨hraw, v, hv⟩ := Json.mem_printMembers hm
          exact ⟨hraw, hv ▸ ih v⟩

/-! ### The names of the members -/

/-- Plain bytes stand for themselves. -/
theorem decodeLoop_plain {s : Bytes} (h : ∀ c ∈ s, isPlain c = true) :
    decodeLoop s.length s = some s := by
  induction s with
  | nil => rfl
  | cons c s ih =>
      obtain ⟨hc, hs⟩ := List.forall_mem_cons.mp h
      obtain ⟨hquote, hslash⟩ := plain_ne hc
      simp [decodeLoop, hquote, hslash, ih hs]

/-- Names of plain bytes that increase are stored one behind the other. -/
theorem Stored.names {ms : List (Bytes × Bytes)} {members out : List (Bytes × Value)}
    (h : Stored ms members out) (hplain : ∀ m ∈ ms, ∀ c ∈ m.1, isPlain c = true)
    (hinc : Increasing ms) (hbelow : ∀ e ∈ members, ∀ m ∈ ms, e.1 < m.1) :
    ∃ j, out.map Prod.fst = members.map Prod.fst ++ (ms.take j).map Prod.fst := by
  induction h with
  | stop ms members => exact ⟨0, by simp⟩
  | @member m ms name v members out hname _ ih =>
      obtain ⟨hm, hrest⟩ := List.forall_mem_cons.mp hplain
      obtain ⟨hfirst, hinc⟩ := List.pairwise_cons.mp hinc
      have hdecoded : decodeString m.1 = some m.1 := decodeLoop_plain hm
      obtain rfl : m.1 = name := by
        rw [hdecoded] at hname
        exact Option.some.inj hname
      have hset : setMember m.1 v members = members ++ [(m.1, v)] :=
        assocSet_of_forall_lt (fun e he => hbelow e he m List.mem_cons_self) v
      rw [hset] at ih
      obtain ⟨j, hj⟩ := ih hrest hinc fun e he m' hm' => by
        rcases List.mem_append.mp he with hold | hnew
        · exact hbelow e hold m' (List.mem_cons_of_mem _ hm')
        · rw [List.mem_singleton.mp hnew]
          exact hfirst m' hm'
      refine ⟨j + 1, ?_⟩
      rw [hj, List.take_succ_cons, List.map_append, List.map_cons, List.append_assoc]
      rfl

end PppAmb
