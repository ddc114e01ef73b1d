import PppAmb.CutReader
import PppAmb.JsonMeaning

/-!
# Reading a Whole Text

What the vendored JSON reader makes of a JSON text, with any white space between the tokens. A
value is read with one node less than the array or the object it stands in, and the reader stops
the program when no node is left. An object is stored in the order of its names, and of two
members with one name the later one is kept.

## Main results

* `readValue_spaced`: the reader gives the value of the text, and consumes the text exactly.
* `parse_spaced`: so does `parse`, which leaves white space only; it stops the program exactly on
  texts that are nested too deeply.
-/

namespace PppAmb

/-! ### The value of a text -/

mutual

/-- The value of a text that is read while some nodes may be pushed; `none` if they do not
suffice. -/
def Json.valueWithin : ℕ → Json → Option Value
  | 0, _ => none
  | _ + 1, .null => some .nullValue
  | _ + 1, .boolean b => some (.booleanValue b)
  | _ + 1, .number x => decodeNumber x.print
  | _ + 1, .string s => (decodeString s.raw).map .stringValue
  | depth + 1, .array elements => (Json.elementsWithin depth elements).map .arrayValue
  | depth + 1, .object members => (Json.membersWithin depth [] members).map .objectValue

/-- The values of the elements of an array. -/
def Json.elementsWithin : ℕ → List Json → Option (List Value)
  | _, [] => some []
  | depth, v :: vs => do
      let x ← v.valueWithin depth
      let xs ← Json.elementsWithin depth vs
      pure (x :: xs)

/-- The members of an object, on top of those that are there. -/
def Json.membersWithin : ℕ → List (Bytes × Value) → List (StringText × Json) →
    Option (List (Bytes × Value))
  | _, stored, [] => some stored
  | depth, stored, (name, v) :: ms => do
      let name ← decodeString name.raw
      let x ← v.valueWithin depth
      Json.membersWithin depth (setMember name x stored) ms

end

mutual

/-- Every string and every number can be decoded. -/
def Json.decodes : Json → Bool
  | .null => true
  | .boolean _ => true
  | .number x => (decodeNumber x.print).isSome
  | .string s => (decodeString s.raw).isSome
  | .array elements => Json.decodesElements elements
  | .object members => Json.decodesMembers members

/-- `decodes`, for the elements of an array. -/
def Json.decodesElements : List Json → Bool
  | [] => true
  | v :: vs => v.decodes && Json.decodesElements vs

/-- `decodes`, for the members of an object and their names. -/
def Json.decodesMembers : List (StringText × Json) → Bool
  | [] => true
  | (name, v) :: ms => (decodeString name.raw).isSome && v.decodes && Json.decodesMembers ms

end

mutual

/-- The number of nodes that are pushed while the text is read. -/
def Json.nodes : Json → ℕ
  | .array elements => Json.nodesElements elements + 1
  | .object members => Json.nodesMembers members + 1
  | _ => 1

/-- The most nodes that an element of an array takes. -/
def Json.nodesElements : List Json → ℕ
  | [] => 0
  | v :: vs => max v.nodes (Json.nodesElements vs)

/-- The most nodes that a member of an object takes. -/
def Json.nodesMembers : List (StringText × Json) → ℕ
  | [] => 0
  | (_, v) :: ms => max v.nodes (Json.nodesMembers ms)

end

/-! ### Tokens behind white space -/

/-- White space in front of a token is skipped. -/
theorem skipSpaces_blank {w : Bytes} (hw : IsJsonBlank w) (s : Bytes) :
    skipSpaces (w ++ s) = skipSpaces s :=
  List.dropWhile_append_of_pos hw

/-- `readToken` skips white space itself. -/
theorem readToken_skipSpaces (s : Bytes) : readToken (skipSpaces s) = readToken s := by
  have hidem : skipSpaces (skipSpaces s) = skipSpaces s := List.dropWhile_idempotent _ s
  rw [readToken, hidem, ← readToken]

/-- A token is read behind white space as without it. -/
theorem readToken_blank {w : Bytes} (hw : IsJsonBlank w) (s : Bytes) :
    readToken (w ++ s) = readToken s := by
  rw [← readToken_skipSpaces, skipSpaces_blank hw, readToken_skipSpaces]

/-- A string is read up to its closing quote. -/
theorem readString_append {raw : Bytes} (hraw : isRawString raw = true) (tail : Bytes) :
    readString (raw ++ ch '"' :: tail) = some (raw, tail) := by
  fun_induction isRawString raw with
  | case1 => exact readString_quote tail
  | case2 c =>
      rw [List.singleton_append, readString_plain hraw, readString_quote]
      rfl
  | case3 e r ih =>
      simp only [Bool.and_eq_true] at hraw
      rw [List.cons_append, List.cons_append, readString_escape, ih hraw.2]
      rfl
  | case4 c e r hc ih =>
      simp only [Bool.and_eq_true] at hraw
      rw [List.cons_append, readString_plain hraw.1, ih hraw.2]
      rfl

/-- A string is read up to its closing quote. -/
theorem readToken_quoted {raw : Bytes} (hraw : isRawString raw = true) (tail : Bytes) :
    readToken (quoted raw ++ tail) = (.string raw, tail) := by
  rw [quoted, List.cons_append, List.append_assoc, List.singleton_append, readToken_quote,
    readString_append hraw]

/-! ### Numbers -/

/-- What may stand behind a value. -/
def Behind (tail : Bytes) : Prop :=
  ∀ c, tail.head? = some c → c = ch ',' ∨ c = ch '}' ∨ c = ch ']' ∨ isJsonSpace c = true

/-- What no number goes on with. -/
theorem Behind.cases {tail : Bytes} (h : Behind tail) {c : UInt8} (hc : tail.head? = some c) :
    isDigit c = false ∧ c ≠ ch '.' ∧ c ≠ ch 'e' ∧ c ≠ ch 'E' ∧ c ≠ ch '+' ∧ c ≠ ch '-' := by
  have hspace : isJsonSpace c = true → c = ch ' ' ∨ c = ch '\t' ∨ c = ch '\r' ∨ c = ch '\n' := by
    intro hs
    simpa [isJsonSpace, or_assoc] using hs
  rcases h c hc with rfl | rfl | rfl | hs
  · decide
  · decide
  · decide
  · rcases hspace hs with rfl | rfl | rfl | rfl <;> decide

/-- The digits of a number are read as far as they go. -/
theorem spanDigits_append (digits : List (Fin 10)) {tail : Bytes}
    (htail : ∀ c, tail.head? = some c → isDigit c = false) :
    spanDigits (digitsText digits ++ tail) = (digitsText digits, tail) := by
  have hdigits : ∀ c ∈ digitsText digits, isDigit c = true := fun c hc => isDigit_of_mem hc
  have hstop : tail.takeWhile isDigit = [] ∧ tail.dropWhile isDigit = tail := by
    cases tail with
    | nil => exact ⟨rfl, rfl⟩
    | cons c r => simp [htail c rfl]
  rw [spanDigits, List.takeWhile_append_of_pos hdigits, List.dropWhile_append_of_pos hdigits,
    hstop.1, hstop.2, List.append_nil]

/-- The fraction of a number, or none, is read as it stands. -/
theorem spanFraction_append (fraction : Option (List (Fin 10))) {tail : Bytes}
    (hdigit : ∀ c, tail.head? = some c → isDigit c = false)
    (hdot : ∀ c, tail.head? = some c → c ≠ ch '.') :
    spanFraction (fractionText fraction ++ tail) = (fractionText fraction, tail) := by
  cases fraction with
  | none =>
      cases tail with
      | nil => rfl
      | cons c r => simp [fractionText, spanFraction, hdot c rfl]
  | some digits =>
      rw [fractionText, List.cons_append, spanFraction, if_pos rfl,
        spanDigits_append digits hdigit]

/-- What comes next behind the mark of an exponent without a sign is no sign. -/
theorem spanExponent_mark {c : UInt8} (hc : c = ch 'e' ∨ c = ch 'E') {r : Bytes}
    (hr : ∀ d, r.head? = some d → d ≠ ch '+' ∧ d ≠ ch '-') :
    spanExponent (c :: r) = (c :: (spanDigits r).1, (spanDigits r).2) := by
  cases r with
  | nil => rcases hc with rfl | rfl <;> rfl
  | cons d r =>
      obtain ⟨hplus, hminus⟩ := hr d rfl
      rcases hc with rfl | rfl <;> simp [spanExponent, hplus, hminus]

/-- The exponent of a number, or none, is read as it stands. -/
theorem spanExponent_append (exponent : Option ExponentText) {tail : Bytes} (htail : Behind tail) :
    spanExponent (exponentText exponent ++ tail) = (exponentText exponent, tail) := by
  have hdigit : ∀ c, tail.head? = some c → isDigit c = false := fun c hc => (htail.cases hc).1
  cases exponent with
  | none =>
      cases tail with
      | nil => rfl
      | cons c r =>
          obtain ⟨-, -, hlower, hupper, -⟩ := htail.cases (c := c) rfl
          simp [exponentText, spanExponent, hlower, hupper]
  | some e =>
      obtain ⟨upper, sign, digits⟩ := e
      have hspan := spanDigits_append digits hdigit
      have hmark : (if upper then ch 'E' else ch 'e') = ch 'e' ∨
          (if upper then ch 'E' else ch 'e') = ch 'E' := by cases upper <;> simp
      rcases sign with _ | _ | _
      · have hsign : ∀ d, (digitsText digits ++ tail).head? = some d → d ≠ ch '+' ∧ d ≠ ch '-' := by
          intro d hd
          rcases head?_append_cases hd with h | ⟨-, h⟩
          · have hd := isDigit_of_mem (List.mem_of_head? h)
            constructor <;> rintro rfl <;> exact absurd hd (by decide)
          · exact (htail.cases h).2.2.2.2
        simp only [exponentText, ExponentText.print, List.nil_append, List.cons_append,
          spanExponent_mark hmark hsign, hspan]
      · cases upper <;> simp [exponentText, ExponentText.print, spanExponent, hspan]
      · cases upper <;> simp [exponentText, ExponentText.print, spanExponent, hspan]

/-- The parts of a number are read one after the other. -/
theorem readNumber_append (integral : List (Fin 10)) (fraction : Option (List (Fin 10)))
    (exponent : Option ExponentText) {tail : Bytes} (htail : Behind tail) :
    readNumber (digitsText integral ++ (fractionText fraction ++ (exponentText exponent ++ tail)))
      = (digitsText integral ++ (fractionText fraction ++ exponentText exponent), tail) := by
  have hhead : ∀ c, (exponentText exponent ++ tail).head? = some c →
      isDigit c = false ∧ c ≠ ch '.' := by
    intro c hc
    rcases exponent_head c hc with rfl | rfl | h
    · decide
    · decide
    · exact ⟨(htail.cases h).1, (htail.cases h).2.1⟩
  have hfraction : ∀ c, (fractionText fraction ++ (exponentText exponent ++ tail)).head? = some c →
      isDigit c = false := by
    intro c hc
    cases fraction with
    | none => exact (hhead c hc).1
    | some digits =>
        obtain rfl : ch '.' = c := by simpa [fractionText] using hc
        decide
  simp only [readNumber, spanDigits_append integral hfraction,
    spanFraction_append fraction (fun c hc => (hhead c hc).1) (fun c hc => (hhead c hc).2),
    spanExponent_append exponent htail, List.append_assoc]

/-- A number is read as one token. -/
theorem readToken_number (x : NumberText) {tail : Bytes} (htail : Behind tail) :
    readToken (x.print ++ tail) = (.number x.print, tail) := by
  obtain ⟨negative, first, integral, fraction, exponent⟩ := x
  have hread := readNumber_append integral fraction exponent htail
  have hminus : ∀ r : Bytes, readToken (ch '-' :: r)
      = (.number (ch '-' :: (readNumber r).1), (readNumber r).2) := fun _ => rfl
  have hdigit : ∀ (d : Fin 10) (r : Bytes), readToken ((48 + UInt8.ofNat d.val) :: r)
      = (.number ((48 + UInt8.ofNat d.val) :: (readNumber r).1), (readNumber r).2) := by
    intro d r
    fin_cases d <;> rfl
  cases negative with
  | true =>
      have hfirst := readNumber_append (first :: integral) fraction exponent htail
      simp only [NumberText.print, if_true, List.cons_append, List.nil_append, List.append_assoc,
        hminus, hfirst]
  | false =>
      have hcons : digitsText (first :: integral)
          = (48 + UInt8.ofNat first.val) :: digitsText integral := rfl
      simp only [NumberText.print, Bool.false_eq_true, if_false, List.cons_append, List.nil_append,
        List.append_assoc, hcons, hdigit, hread]

/-! ### Values -/

/-- Tokens that may come behind a value. -/
def TokensBehind (ts : List Bytes) : Prop :=
  ∀ t, ts.head? = some t → t = [ch ','] ∨ t = [ch '}'] ∨ t = [ch ']']

/-- The first token, with the white space in front of it. -/
theorem Spaced.split {t s : Bytes} {ts : List Bytes} (h : Spaced (t :: ts) s) :
    ∃ w r, IsJsonBlank w ∧ Spaced ts r ∧ s = w ++ (t ++ r) := by
  cases h with
  | @cons w t r ts hw h => exact ⟨w, r, hw, h, rfl⟩

/-- Behind a number there is white space, or a token that ends it. -/
theorem Spaced.behind {s : Bytes} {ts : List Bytes} (h : Spaced ts s) (hts : TokensBehind ts) :
    Behind s := by
  have hblank : ∀ {w : Bytes}, IsJsonBlank w → ∀ c, w.head? = some c → isJsonSpace c = true :=
    fun hw c hc => hw c (List.mem_of_head? hc)
  intro c hc
  cases h with
  | nil hw => exact Or.inr (Or.inr (Or.inr (hblank hw c hc)))
  | @cons w t r ts hw h =>
      rcases head?_append_cases hc with hc | ⟨-, hc⟩
      · exact Or.inr (Or.inr (Or.inr (hblank hw c hc)))
      · rcases hts t rfl with rfl | rfl | rfl
        · exact Or.inl (Option.some.inj hc).symm
        · exact Or.inr (Or.inl (Option.some.inj hc).symm)
        · exact Or.inr (Or.inr (Or.inl (Option.some.inj hc).symm))

/-- An item of an array or of an object is followed by a comma or by the closing bracket. -/
theorem tokensBehind_tail {close : UInt8} (hclose : close = ch '}' ∨ close = ch ']')
    (tss : List (List Bytes)) (ts : List Bytes) : TokensBehind (tokensTail close tss ++ ts) := by
  intro t ht
  cases tss with
  | nil =>
      obtain rfl : [close] = t := Option.some.inj ht
      rcases hclose with rfl | rfl
      · exact Or.inr (Or.inl rfl)
      · exact Or.inr (Or.inr rfl)
  | cons first tss =>
      obtain rfl : [ch ','] = t := Option.some.inj ht
      exact Or.inl rfl

/-- What reading a value with the given tokens comes to, whatever follows it: the value and the
rest of the text, or the program stops. -/
def ReadsTo (readValue : Value → Bytes → ReadResult) (tokens : List Bytes) (res : Option Value) :
    Prop :=
  ∀ current ts s, TokensBehind ts → Spaced (tokens ++ ts) s →
    ∃ r, Spaced ts r ∧ readValue current s = res.map fun v => (true, v, r)

/-- A value that is one token. -/
theorem readsTo_token {depth : ℕ} {t : Bytes} (token : Token) {v : Value}
    (hread : ∀ r, Behind r → readToken (t ++ r) = (token, r)) (htoken : token ≠ .comment)
    (hvalue : ∀ current inp r, skipCommentTokens (List.length inp) inp = (token, r) →
      readValue (depth + 1) current inp = some (true, v, r)) :
    ReadsTo (readValue (depth + 1)) [t] (some v) := by
  intro current ts s hts hs
  obtain ⟨w, r, hw, hr, rfl⟩ := Spaced.split (t := t) hs
  have htok : readToken (w ++ (t ++ r)) = (token, r) := by
    rw [readToken_blank hw, hread r (hr.behind hts)]
  refine ⟨r, hr, hvalue current _ r ?_⟩
  rw [skipCommentTokens_eq (by rw [htok]; exact htoken), htok]

/-- A word that stands in the text is consumed. -/
theorem matchLiteral_append (pattern r : Bytes) (token : Token) :
    matchLiteral pattern token (pattern ++ r) = (token, r) := by
  rw [matchLiteral, List.take_left, if_pos rfl, List.drop_left]

/-- A mark in front of a text. -/
theorem readToken_mark {c : UInt8} {token : Token} (hread : ∀ r, readToken (c :: r) = (token, r))
    {s : Bytes} {ts : List Bytes} (h : Spaced ([c] :: ts) s) :
    ∃ r, Spaced ts r ∧ readToken s = (token, r) := by
  obtain ⟨w, r, hw, hr, rfl⟩ := h.split
  refine ⟨r, hr, ?_⟩
  rw [readToken_blank hw]
  exact hread r

/-! ### Arrays -/

/-- The tokens of a value begin with neither white space nor a closing bracket. -/
theorem tokens_eq_cons (v : Json) : ∃ c t ts, v.tokens = (c :: t) :: ts ∧
    isJsonSpace c = false ∧ c ≠ ch ']' := by
  have hnumber : ∀ x : NumberText, ∃ c t, x.print = c :: t ∧ isJsonSpace c = false ∧
      c ≠ ch ']' := by
    intro x
    have hbegins := beginsValue_number x
    cases hx : x.print with
    | nil => rw [hx] at hbegins; exact absurd hbegins (by simp [beginsValue])
    | cons c t =>
        rw [hx] at hbegins
        exact ⟨c, t, rfl, by simpa [beginsValue] using hbegins⟩
  cases v with
  | null => exact ⟨_, _, _, rfl, by decide, by decide⟩
  | boolean b => cases b <;> exact ⟨_, _, _, rfl, by decide, by decide⟩
  | number x =>
      obtain ⟨c, t, hx, hc⟩ := hnumber x
      exact ⟨c, t, [], by rw [Json.tokens, hx], hc⟩
  | string s => exact ⟨_, _, _, rfl, by decide, by decide⟩
  | array elements =>
      rw [Json.tokens]
      cases Json.tokensElements elements <;> exact ⟨_, _, _, rfl, by decide, by decide⟩
  | object members =>
      rw [Json.tokens]
      cases (Json.tokensMembers members).map memberTokens <;>
        exact ⟨_, _, _, rfl, by decide, by decide⟩

/-- The elements from one of them on. -/
theorem readElements_spaced {depth : ℕ} (vs : List Json) :
    ∀ (v : Json) (fuel : ℕ) (elements : List Value) (ts : List Bytes) (s : Bytes),
      vs.length < fuel →
      (∀ u ∈ v :: vs, ReadsTo (readValue depth) u.tokens (u.valueWithin depth)) →
      Spaced (v.tokens ++ (tokensTail (ch ']') (Json.tokensElements vs) ++ ts)) s →
      ∃ r, Spaced ts r ∧ readElements (readValue depth) fuel elements s
        = (Json.elementsWithin depth (v :: vs)).map
          fun xs => (true, .arrayValue (elements ++ xs), r) := by
  induction vs with
  | nil =>
      intro v fuel elements ts s hfuel hall hs
      obtain ⟨fuel, rfl⟩ := Nat.exists_eq_add_one_of_ne_zero (by omega : fuel ≠ 0)
      obtain ⟨r, hr, hread⟩ := hall v List.mem_cons_self .nullValue _ s
        (tokensBehind_tail (Or.inr rfl) _ ts) hs
      obtain ⟨r', hr', htok⟩ := readToken_mark readToken_arrayEnd hr
      refine ⟨r', hr', ?_⟩
      rw [readElements, hread, Json.elementsWithin]
      cases v.valueWithin depth with
      | none => rfl
      | some x =>
          have hskip : skipCommentTokens r.length r = readToken r :=
            skipCommentTokens_eq (by rw [htok]; simp) r.length
          rw [htok] at hskip
          simp [hskip, Json.elementsWithin]
  | cons u us ih =>
      intro v fuel elements ts s hfuel hall hs
      obtain ⟨fuel, rfl⟩ := Nat.exists_eq_add_one_of_ne_zero (by omega : fuel ≠ 0)
      rw [List.length_cons, Nat.add_lt_add_iff_right] at hfuel
      obtain ⟨hv, hrest⟩ := List.forall_mem_cons.mp hall
      obtain ⟨r, hr, hread⟩ := hv .nullValue _ s (tokensBehind_tail (Or.inr rfl) _ ts) hs
      obtain ⟨r', hr', htok⟩ := readToken_mark readToken_comma hr
      have hnext : Spaced (u.tokens ++ (tokensTail (ch ']') (Json.tokensElements us) ++ ts))
          r' := by
        rw [← List.append_assoc]
        exact hr'
      rw [readElements, hread, Json.elementsWithin]
      cases v.valueWithin depth with
      | none => exact ⟨_, spaced_flatten ts, rfl⟩
      | some x =>
          have hskip : skipCommentTokens r.length r = readToken r :=
            skipCommentTokens_eq (by rw [htok]; simp) r.length
          rw [htok] at hskip
          obtain ⟨r'', hr'', hmore⟩ := ih u fuel (elements ++ [x]) ts r' hfuel hrest hnext
          refine ⟨r'', hr'', ?_⟩
          simp only [Option.map_some, hskip, if_true, hmore]
          cases Json.elementsWithin depth (u :: us) <;> simp

/-- There are more tokens than items, so the fuel of the loops is enough. -/
theorem length_tokensTail_le (close : UInt8) (tss : List (List Bytes)) :
    tss.length < (tokensTail close tss).flatten.length := by
  induction tss with
  | nil => simp [tokensTail]
  | cons ts tss ih =>
      simp only [tokensTail, List.flatten_cons, List.flatten_append, List.length_append,
        List.length_cons]
      omega

/-- Each element has its tokens. -/
theorem length_tokensElements (vs : List Json) : (Json.tokensElements vs).length = vs.length := by
  induction vs with
  | nil => rfl
  | cons v vs ih => rw [Json.tokensElements, List.length_cons, List.length_cons, ih]

/-- **An array** is read as its elements are. -/
theorem readsTo_array {depth : ℕ} {elements : List Json}
    (h : ∀ v ∈ elements, ReadsTo (readValue depth) v.tokens (v.valueWithin depth)) :
    ReadsTo (readValue (depth + 1)) (Json.array elements).tokens
      ((Json.array elements).valueWithin (depth + 1)) := by
  intro current ts s hts hs
  have hbegin : ∀ {rest : List Bytes}, Spaced ([ch '['] :: rest) s → ∃ r, Spaced rest r ∧
      readValue (depth + 1) current s = readArray (readValue depth) r := by
    intro rest hs
    obtain ⟨r, hr, htok⟩ := readToken_mark readToken_arrayBegin hs
    refine ⟨r, hr, ?_⟩
    rw [readValue, skipCommentTokens_eq (by rw [htok]; simp), htok]
  cases elements with
  | nil =>
      obtain ⟨r, hr, hread⟩ := hbegin hs
      obtain ⟨w, r', hw, hr', rfl⟩ := hr.split
      refine ⟨r', hr', ?_⟩
      have hskip : skipSpaces (w ++ ([ch ']'] ++ r')) = ch ']' :: r' := by
        rw [skipSpaces_blank hw]
        rfl
      rw [hread, readArray, hskip]
      rfl
  | cons v vs =>
      rw [Json.tokens, Json.tokensElements, bracketedTokens, List.cons_append,
        List.append_assoc] at hs
      obtain ⟨r, hr, hread⟩ := hbegin hs
      -- the first element begins behind the white space
      obtain ⟨c, t, rest, htokens, hspace, hclose⟩ := tokens_eq_cons v
      rw [htokens] at hr
      obtain ⟨w, r', hw, hr', rfl⟩ := Spaced.split (t := c :: t) hr
      have hskip : skipSpaces (w ++ (c :: t ++ r')) = c :: (t ++ r') := by
        rw [skipSpaces_blank hw, skipSpaces, List.cons_append, List.dropWhile_cons_of_neg]
        simp [hspace]
      have hfirst : Spaced (v.tokens ++ (tokensTail (ch ']') (Json.tokensElements vs) ++ ts))
          (c :: (t ++ r')) := by
        rw [htokens]
        exact Spaced.token hr' (c :: t)
      have hfuel : vs.length < (t ++ r').length + 1 := by
        have hlen : (rest ++ (tokensTail (ch ']') (Json.tokensElements vs) ++ ts)).flatten.length
            ≤ r'.length := hr'.length_le
        have htail := length_tokensTail_le (ch ']') (Json.tokensElements vs)
        rw [length_tokensElements] at htail
        simp only [List.flatten_append, List.length_append] at hlen ⊢
        omega
      obtain ⟨r'', hr'', helements⟩ := readElements_spaced vs v _ [] ts _ hfuel h hfirst
      refine ⟨r'', hr'', ?_⟩
      rw [hread, readArray, hskip]
      simp only [if_neg hclose, helements, Json.valueWithin]
      cases Json.elementsWithin depth (v :: vs) <;> simp

/-! ### Objects -/

/-- The members from one of them on. -/
theorem readMembers_spaced {depth : ℕ} (ms : List (StringText × Json)) :
    ∀ (m : StringText × Json) (fuel : ℕ) (last : Bytes) (stored : List (Bytes × Value))
      (ts : List Bytes) (s : Bytes), ms.length < fuel →
      (∀ m' ∈ m :: ms, (decodeString m'.1.raw).isSome = true ∧
        ReadsTo (readValue depth) m'.2.tokens (m'.2.valueWithin depth)) →
      Spaced (memberTokens (m.1.raw, m.2.tokens)
        ++ (tokensTail (ch '}') ((Json.tokensMembers ms).map memberTokens) ++ ts)) s →
      ∃ r, Spaced ts r ∧ readMembers (readValue depth) fuel last stored s
        = (Json.membersWithin depth stored (m :: ms)).map
          fun out => (true, .objectValue out, r) := by
  induction ms with
  | nil =>
      rintro ⟨name, v⟩ fuel last stored ts s hfuel hall hs
      obtain ⟨fuel, rfl⟩ := Nat.exists_eq_add_one_of_ne_zero (by omega : fuel ≠ 0)
      obtain ⟨hname, hv⟩ := hall _ List.mem_cons_self
      obtain ⟨decoded, hdecoded⟩ := Option.isSome_iff_exists.mp hname
      obtain ⟨w, r, hw, hr, rfl⟩ := Spaced.split (t := quoted name.raw) hs
      obtain ⟨r₁, hr₁, hcolon⟩ := readToken_mark readToken_colon hr
      obtain ⟨r₂, hr₂, hread⟩ := hv ((getMember decoded stored).getD .nullValue) _ r₁
        (tokensBehind_tail (Or.inl rfl) _ ts) hr₁
      obtain ⟨r₃, hr₃, hend⟩ := readToken_mark readToken_objectEnd hr₂
      have htok : readToken (w ++ (quoted name.raw ++ r)) = (.string name.raw, r) := by
        rw [readToken_blank hw, readToken_quoted name.valid]
      refine ⟨r₃, hr₃, ?_⟩
      rw [readMembers, skipCommentTokens_eq (by rw [htok]; simp), htok]
      simp only [hdecoded, hcolon, hread, Json.membersWithin, Option.bind_eq_bind,
        Option.bind_some]
      cases v.valueWithin depth with
      | none => rfl
      | some x => simp [hend]
  | cons m' ms ih =>
      rintro ⟨name, v⟩ fuel last stored ts s hfuel hall hs
      obtain ⟨fuel, rfl⟩ := Nat.exists_eq_add_one_of_ne_zero (by omega : fuel ≠ 0)
      rw [List.length_cons, Nat.add_lt_add_iff_right] at hfuel
      obtain ⟨⟨hname, hv⟩, hrest⟩ := List.forall_mem_cons.mp hall
      obtain ⟨decoded, hdecoded⟩ := Option.isSome_iff_exists.mp hname
      obtain ⟨w, r, hw, hr, rfl⟩ := Spaced.split (t := quoted name.raw) hs
      obtain ⟨r₁, hr₁, hcolon⟩ := readToken_mark readToken_colon hr
      obtain ⟨r₂, hr₂, hread⟩ := hv ((getMember decoded stored).getD .nullValue) _ r₁
        (tokensBehind_tail (Or.inl rfl) _ ts) hr₁
      obtain ⟨r₃, hr₃, hcomma⟩ := readToken_mark readToken_comma hr₂
      have hnext : Spaced (memberTokens (m'.1.raw, m'.2.tokens)
          ++ (tokensTail (ch '}') ((Json.tokensMembers ms).map memberTokens) ++ ts)) r₃ := by
        rw [← List.append_assoc]
        exact hr₃
      have htok : readToken (w ++ (quoted name.raw ++ r)) = (.string name.raw, r) := by
        rw [readToken_blank hw, readToken_quoted name.valid]
      rw [readMembers, skipCommentTokens_eq (by rw [htok]; simp), htok]
      simp only [hdecoded, hcolon, hread]
      rw [Json.membersWithin]
      simp only [hdecoded, Option.bind_eq_bind, Option.bind_some]
      cases v.valueWithin depth with
      | none => exact ⟨_, spaced_flatten ts, rfl⟩
      | some x =>
          obtain ⟨r₄, hr₄, hmore⟩ := ih m' fuel decoded (setMember decoded x stored) ts r₃ hfuel
            hrest hnext
          refine ⟨r₄, hr₄, ?_⟩
          simp only [Option.map_some, if_true, hcomma, hmore, Option.bind_some]

/-- Each member has its tokens. -/
theorem length_tokensMembers (ms : List (StringText × Json)) :
    (Json.tokensMembers ms).length = ms.length := by
  induction ms with
  | nil => rfl
  | cons m ms ih => rw [Json.tokensMembers, List.length_cons, List.length_cons, ih]

/-- **An object** is read as its members are; a name that comes again replaces the value. -/
theorem readsTo_object {depth : ℕ} {members : List (StringText × Json)}
    (h : ∀ m ∈ members, (decodeString m.1.raw).isSome = true ∧
      ReadsTo (readValue depth) m.2.tokens (m.2.valueWithin depth)) :
    ReadsTo (readValue (depth + 1)) (Json.object members).tokens
      ((Json.object members).valueWithin (depth + 1)) := by
  intro current ts s hts hs
  have hbegin : ∀ {rest : List Bytes}, Spaced ([ch '{'] :: rest) s → ∃ r, Spaced rest r ∧
      readValue (depth + 1) current s
        = readMembers (readValue depth) (r.length + 1) [] [] r := by
    intro rest hs
    obtain ⟨r, hr, htok⟩ := readToken_mark readToken_objectBegin hs
    refine ⟨r, hr, ?_⟩
    rw [readValue, skipCommentTokens_eq (by rw [htok]; simp), htok]
  cases members with
  | nil =>
      obtain ⟨r, hr, hread⟩ := hbegin hs
      obtain ⟨r', hr', hend⟩ := readToken_mark readToken_objectEnd hr
      refine ⟨r', hr', ?_⟩
      rw [hread, readMembers, skipCommentTokens_eq (by rw [hend]; simp), hend]
      rfl
  | cons m ms =>
      rw [Json.tokens, Json.tokensMembers, List.map_cons, bracketedTokens, List.cons_append,
        List.append_assoc] at hs
      obtain ⟨r, hr, hread⟩ := hbegin hs
      have hfuel : ms.length < r.length + 1 := by
        have hlen := hr.length_le
        have htail := length_tokensTail_le (ch '}') ((Json.tokensMembers ms).map memberTokens)
        rw [List.length_map, length_tokensMembers] at htail
        simp only [List.flatten_append, List.length_append] at hlen
        omega
      obtain ⟨r', hr', hmembers⟩ := readMembers_spaced ms m _ [] [] ts r hfuel h hr
      refine ⟨r', hr', ?_⟩
      rw [hread, hmembers, Json.valueWithin]
      cases Json.membersWithin depth [] (m :: ms) <;> simp

/-! ### The reader -/

/-- `decodesElements` as a statement about every element. -/
theorem Json.decodes_of_mem {vs : List Json} (h : Json.decodesElements vs = true) :
    ∀ v ∈ vs, v.decodes = true := by
  induction vs with
  | nil => simp
  | cons v vs ih =>
      rw [Json.decodesElements, Bool.and_eq_true] at h
      exact List.forall_mem_cons.mpr ⟨h.1, ih h.2⟩

/-- `decodesMembers` as a statement about every member. -/
theorem Json.decodes_of_mem_members {ms : List (StringText × Json)}
    (h : Json.decodesMembers ms = true) :
    ∀ m ∈ ms, (decodeString m.1.raw).isSome = true ∧ m.2.decodes = true := by
  induction ms with
  | nil => simp
  | cons m ms ih =>
      obtain ⟨name, v⟩ := m
      rw [Json.decodesMembers, Bool.and_eq_true, Bool.and_eq_true] at h
      exact List.forall_mem_cons.mpr ⟨h.1, ih h.2⟩

/-- **Reading a value.** From the front of a text, with any white space between the tokens, the
reader gives the value and leaves what follows it. -/
theorem readValue_spaced (depth : ℕ) (v : Json) (hv : v.decodes = true) :
    ReadsTo (readValue depth) v.tokens (v.valueWithin depth) := by
  -- on the number of nodes that may be pushed
  induction depth generalizing v with
  | zero =>
      intro current ts s _ _
      refine ⟨_, spaced_flatten ts, ?_⟩
      rw [readValue, Json.valueWithin, Option.map_none]
  | succ depth ih =>
      cases v with
      | null =>
          refine readsTo_token .null (fun r _ => ?_) (by simp) fun current inp r htok => by
            rw [readValue, htok]
          exact matchLiteral_append (ascii "ull") r .null
      | boolean b =>
          cases b with
          | true =>
              refine readsTo_token .true (fun r _ => ?_) (by simp) fun current inp r htok => by
                rw [readValue, htok]
              exact matchLiteral_append (ascii "rue") r .true
          | false =>
              refine readsTo_token .false (fun r _ => ?_) (by simp) fun current inp r htok => by
                rw [readValue, htok]
              exact matchLiteral_append (ascii "alse") r .false
      | number x =>
          obtain ⟨y, hy⟩ := Option.isSome_iff_exists.mp hv
          rw [Json.tokens, Json.valueWithin, hy]
          refine readsTo_token (.number x.print) (fun r hr => readToken_number x hr) (by simp)
            fun current inp r htok => ?_
          rw [readValue, htok]
          simp only [hy]
      | string s =>
          obtain ⟨y, hy⟩ := Option.isSome_iff_exists.mp hv
          rw [Json.tokens, Json.valueWithin, hy]
          refine readsTo_token (.string s.raw) (fun r hr => readToken_quoted s.valid r) (by simp)
            fun current inp r htok => ?_
          rw [readValue, htok]
          simp only [hy]
      | array elements =>
          exact readsTo_array fun v hmem => ih v (Json.decodes_of_mem hv v hmem)
      | object members =>
          refine readsTo_object fun m hmem => ?_
          obtain ⟨hname, hvalue⟩ := Json.decodes_of_mem_members hv m hmem
          exact ⟨hname, ih m.2 hvalue⟩

/-! ### Nesting -/

mutual

/-- More nodes do no harm. -/
theorem Json.valueWithin_mono {depth depth' : ℕ} (hle : depth ≤ depth') {v : Json} {x : Value}
    (h : v.valueWithin depth = some x) : v.valueWithin depth' = some x := by
  cases depth with
  | zero => exact absurd h (by simp [Json.valueWithin])
  | succ depth =>
      obtain ⟨depth', rfl⟩ := Nat.exists_eq_add_one_of_ne_zero (by omega : depth' ≠ 0)
      have hless : depth ≤ depth' := by omega
      match v with
      | .null => exact h
      | .boolean b => exact h
      | .number n => exact h
      | .string s => exact h
      | .array elements =>
          rw [Json.valueWithin, Option.map_eq_some_iff] at h ⊢
          obtain ⟨xs, hxs, rfl⟩ := h
          exact ⟨xs, Json.elementsWithin_mono hless hxs, rfl⟩
      | .object members =>
          rw [Json.valueWithin, Option.map_eq_some_iff] at h ⊢
          obtain ⟨out, hout, rfl⟩ := h
          exact ⟨out, Json.membersWithin_mono hless hout, rfl⟩

/-- `valueWithin_mono` for the elements of an array. -/
theorem Json.elementsWithin_mono {depth depth' : ℕ} (hle : depth ≤ depth') {vs : List Json}
    {xs : List Value} (h : Json.elementsWithin depth vs = some xs) :
    Json.elementsWithin depth' vs = some xs := by
  match vs with
  | [] => exact h
  | v :: vs =>
      simp only [Json.elementsWithin, Option.bind_eq_bind, Option.bind_eq_some_iff] at h ⊢
      obtain ⟨x, hx, xs, hxs, heq⟩ := h
      exact ⟨x, Json.valueWithin_mono hle hx, xs, Json.elementsWithin_mono hle hxs, heq⟩

/-- `valueWithin_mono` for the members of an object. -/
theorem Json.membersWithin_mono {depth depth' : ℕ} (hle : depth ≤ depth')
    {ms : List (StringText × Json)} {stored out : List (Bytes × Value)}
    (h : Json.membersWithin depth stored ms = some out) :
    Json.membersWithin depth' stored ms = some out := by
  match ms with
  | [] => exact h
  | (name, v) :: ms =>
      simp only [Json.membersWithin, Option.bind_eq_bind, Option.bind_eq_some_iff] at h ⊢
      obtain ⟨decoded, hname, x, hx, hrest⟩ := h
      exact ⟨decoded, hname, x, Json.valueWithin_mono hle hx, Json.membersWithin_mono hle hrest⟩

end

mutual

/-- The nodes suffice if there are as many as the nesting calls for. -/
theorem Json.valueWithin_isSome {depth : ℕ} {v : Json} (hv : v.decodes = true) :
    (v.valueWithin depth).isSome = true ↔ v.nodes ≤ depth := by
  match depth, v with
  | 0, .null => simp [Json.valueWithin, Json.nodes]
  | 0, .boolean b => simp [Json.valueWithin, Json.nodes]
  | 0, .number x => simp [Json.valueWithin, Json.nodes]
  | 0, .string s => simp [Json.valueWithin, Json.nodes]
  | 0, .array elements => simp [Json.valueWithin, Json.nodes]
  | 0, .object members => simp [Json.valueWithin, Json.nodes]
  | depth + 1, .null => simp [Json.valueWithin, Json.nodes]
  | depth + 1, .boolean b => simp [Json.valueWithin, Json.nodes]
  | depth + 1, .number x =>
      rw [Json.decodes] at hv
      simp [Json.valueWithin, Json.nodes, hv]
  | depth + 1, .string s =>
      rw [Json.decodes] at hv
      simp [Json.valueWithin, Json.nodes, hv]
  | depth + 1, .array elements =>
      rw [Json.decodes] at hv
      rw [Json.valueWithin, Option.isSome_map, Json.elementsWithin_isSome hv, Json.nodes,
        Nat.add_le_add_iff_right]
  | depth + 1, .object members =>
      rw [Json.decodes] at hv
      rw [Json.valueWithin, Option.isSome_map, Json.membersWithin_isSome hv, Json.nodes,
        Nat.add_le_add_iff_right]

/-- `valueWithin_isSome` for the elements of an array. -/
theorem Json.elementsWithin_isSome {depth : ℕ} {vs : List Json}
    (hvs : Json.decodesElements vs = true) :
    (Json.elementsWithin depth vs).isSome = true ↔ Json.nodesElements vs ≤ depth := by
  match vs with
  | [] => simp [Json.elementsWithin, Json.nodesElements]
  | v :: vs =>
      rw [Json.decodesElements, Bool.and_eq_true] at hvs
      rw [Json.nodesElements, max_le_iff, ← Json.valueWithin_isSome hvs.1,
        ← Json.elementsWithin_isSome hvs.2, Json.elementsWithin]
      cases v.valueWithin depth <;> cases Json.elementsWithin depth vs <;> simp

/-- `valueWithin_isSome` for the members of an object. -/
theorem Json.membersWithin_isSome {depth : ℕ} {ms : List (StringText × Json)}
    {stored : List (Bytes × Value)} (hms : Json.decodesMembers ms = true) :
    (Json.membersWithin depth stored ms).isSome = true ↔ Json.nodesMembers ms ≤ depth := by
  match ms with
  | [] => simp [Json.membersWithin, Json.nodesMembers]
  | (name, v) :: ms =>
      rw [Json.decodesMembers, Bool.and_eq_true, Bool.and_eq_true] at hms
      obtain ⟨decoded, hdecoded⟩ := Option.isSome_iff_exists.mp hms.1.1
      rw [Json.nodesMembers, max_le_iff, ← Json.valueWithin_isSome hms.1.2, Json.membersWithin,
        hdecoded]
      cases v.valueWithin depth with
      | none => simp
      | some x =>
          have hrest : (Json.membersWithin depth (setMember decoded x stored) ms).isSome = true ↔
              Json.nodesMembers ms ≤ depth := Json.membersWithin_isSome hms.2
          simpa using hrest

end

/-- The value of a text. -/
def Json.value (v : Json) : Option Value :=
  v.valueWithin v.nodes

/-- A limit on the depth changes no value: it is there or not. -/
theorem Json.valueWithin_eq {v : Json} (hv : v.decodes = true) (depth : ℕ) :
    v.valueWithin depth = if v.nodes ≤ depth then v.value else none := by
  obtain ⟨x, hx⟩ := Option.isSome_iff_exists.mp ((Json.valueWithin_isSome hv).mpr (le_refl v.nodes))
  split
  · rename_i hle
    rw [Json.value, hx]
    exact Json.valueWithin_mono hle hx
  · rename_i hmore
    rwa [← Option.not_isSome_iff_eq_none, Json.valueWithin_isSome hv]

/-- The reader has 1000 nodes for a text. What it leaves of it is white space. -/
theorem readValue_document {v : Json} (hv : v.decodes = true) {text : Bytes}
    (h : Spaced v.tokens text) : ∃ r, IsJsonBlank r ∧
      readValue stackLimit .nullValue text
        = (v.valueWithin stackLimit).map fun x => (true, x, r) := by
  obtain ⟨r, hr, hread⟩ := readValue_spaced stackLimit v hv .nullValue [] text
    (fun t ht => absurd ht (by simp)) (by rwa [List.append_nil])
  cases hr with
  | nil hblank => exact ⟨r, hblank, hread⟩

/-- `parse` reads within the limit of the stack. -/
theorem parse_eq_valueWithin {v : Json} (hv : v.decodes = true) {text : Bytes}
    (h : Spaced v.tokens text) : parse text = v.valueWithin stackLimit := by
  obtain ⟨r, -, hread⟩ := readValue_document hv h
  rw [parse, hread, Option.map_map]
  cases v.valueWithin stackLimit <;> rfl

/-- If the reader gets through the text, it accepts it. -/
theorem accepts_eq {v : Json} (hv : v.decodes = true) {text : Bytes} (h : Spaced v.tokens text) :
    accepts text = if v.nodes ≤ 1000 then some true else none := by
  obtain ⟨r, -, hread⟩ := readValue_document hv h
  have hsome : (v.valueWithin stackLimit).isSome = true ↔ v.nodes ≤ stackLimit :=
    Json.valueWithin_isSome hv
  rw [accepts, hread, Option.map_map]
  split
  · rename_i hle
    obtain ⟨x, hx⟩ := Option.isSome_iff_exists.mp (hsome.mpr hle)
    rw [hx]
    rfl
  · rename_i hmore
    rw [Option.not_isSome_iff_eq_none.mp fun hyes => hmore (hsome.mp hyes)]
    rfl

end PppAmb
