import PppAmb.JsonStrings

/-!
# One Text, One Value

The compact text of a valid JSON value tells the value.

## Main results

* `NumberText.print_inj`: two numbers that are printed alike are the same number.
* `Json.print_inj`: two valid values whose texts begin a common text are the same value.
-/

namespace PppAmb

/-! ### Where a run of bytes ends -/

/-- Two runs of bytes of one kind that end at bytes of another kind. -/
theorem eq_of_all_append {p : UInt8 → Bool} {s t w w' : Bytes} (hs : ∀ c ∈ s, p c = true)
    (ht : ∀ c ∈ t, p c = true) (hw : ∀ c ∈ w.head?, p c = false)
    (hw' : ∀ c ∈ w'.head?, p c = false) (h : s ++ w = t ++ w') : s = t ∧ w = w' := by
  have htake : ∀ {s w : Bytes}, (∀ c ∈ s, p c = true) → (∀ c ∈ w.head?, p c = false) →
      (s ++ w).takeWhile p = s := by
    intro s w hs hw
    rw [List.takeWhile_append_of_pos hs]
    cases w with
    | nil => simp
    | cons c w => simp [hw c rfl]
  have heq : s = t := by
    rw [← htake hs hw, h, htake ht hw']
  subst heq
  exact ⟨rfl, List.append_cancel_left h⟩

/-- The bytes of a number. -/
def isNumberByte (c : UInt8) : Bool :=
  c ∈ ascii "+-.0123456789Ee"

/-- Every byte of a run of digits is a digit. -/
theorem all_digitsText {p : UInt8 → Bool} (hp : ∀ d : Fin 10, p (48 + UInt8.ofNat d.val) = true)
    {digits : List (Fin 10)} : ∀ c ∈ digitsText digits, p c = true := by
  intro c hc
  obtain ⟨d, -, rfl⟩ := List.mem_map.mp hc
  exact hp d

/-- The text of some digits is made of digits. -/
theorem isDigitOf_digitsText {digits : List (Fin 10)} :
    ∀ c ∈ digitsText digits, isDigitOf 10 c = true :=
  all_digitsText (by decide)

/-- Digits are told by their text. -/
theorem digitsText_inj {ds es : List (Fin 10)} (h : digitsText ds = digitsText es) : ds = es := by
  have hbyte : Function.Injective fun d : Fin 10 => 48 + UInt8.ofNat d.val := by
    unfold Function.Injective
    decide
  exact hbyte.list_map h

/-- The text of some digits does not begin with another byte. -/
theorem digitsText_ne_cons {digits : List (Fin 10)} {c : UInt8} {s : Bytes}
    (hc : isDigitOf 10 c = false) : digitsText digits ≠ c :: s := by
  intro h
  have hmem : c ∈ digitsText digits := by
    rw [h]
    exact List.mem_cons_self
  have hdigit := isDigitOf_digitsText c hmem
  rw [hc] at hdigit
  exact absurd hdigit (by simp)

/-! ### Numbers -/

/-- The sign of an exponent. -/
def signText : Option Bool → Bytes
  | none => []
  | some true => [ch '-']
  | some false => [ch '+']

/-- An exponent as its letter, its sign and its digits. -/
theorem ExponentText.print_eq (e : ExponentText) : e.print =
    (if e.upper then ch 'E' else ch 'e') :: (signText e.sign ++ digitsText e.digits) := by
  obtain ⟨upper, _ | _ | _, digits⟩ := e <;> rfl

/-- A sign is told from the digits behind it, also where there is none. -/
theorem sign_inj {sign sign' : Option Bool} {ds es : List (Fin 10)}
    (h : signText sign ++ digitsText ds = signText sign' ++ digitsText es) :
    sign = sign' ∧ ds = es := by
  have hplus : isDigitOf 10 (ch '+') = false := rfl
  have hminus : isDigitOf 10 (ch '-') = false := rfl
  rcases sign with _ | _ | _ <;> rcases sign' with _ | _ | _
  · exact ⟨rfl, digitsText_inj h⟩
  · exact absurd h (digitsText_ne_cons hplus)
  · exact absurd h (digitsText_ne_cons hminus)
  · exact absurd h.symm (digitsText_ne_cons hplus)
  · exact ⟨rfl, digitsText_inj (List.cons.inj h).2⟩
  · exact absurd (List.cons.inj h).1 (by decide)
  · exact absurd h.symm (digitsText_ne_cons hminus)
  · exact absurd (List.cons.inj h).1 (by decide)
  · exact ⟨rfl, digitsText_inj (List.cons.inj h).2⟩

/-- An exponent is told by its text. -/
theorem ExponentText.print_inj {e e' : ExponentText} (h : e.print = e'.print) : e = e' := by
  obtain ⟨upper, sign, digits⟩ := e
  obtain ⟨upper', sign', digits'⟩ := e'
  rw [ExponentText.print_eq, ExponentText.print_eq] at h
  obtain ⟨hmark, hrest⟩ := List.cons.inj h
  obtain ⟨rfl, rfl⟩ : sign = sign' ∧ digits = digits' := sign_inj hrest
  have hcase : ch 'e' ≠ ch 'E' := by decide
  obtain rfl : upper = upper' := by
    cases upper <;> cases upper'
    · rfl
    · exact absurd hmark hcase
    · exact absurd hmark hcase.symm
    · rfl
  rfl

/-- An exponent, or none, is told by its text. -/
theorem exponentText_inj {e e' : Option ExponentText} (h : exponentText e = exponentText e') :
    e = e' := by
  cases e with
  | none =>
      cases e' with
      | none => rfl
      | some e' => exact absurd h (by simp [exponentText, ExponentText.print])
  | some e =>
      cases e' with
      | none => exact absurd h (by simp [exponentText, ExponentText.print])
      | some e' => exact congrArg some (ExponentText.print_inj h)

/-- Neither an exponent nor a fraction begins with a digit. -/
theorem exponentText_head (e : Option ExponentText) :
    ∀ c ∈ (exponentText e).head?, isDigitOf 10 c = false ∧ c ≠ ch '.' := by
  intro c hc
  cases e with
  | none => exact absurd hc (by simp [exponentText])
  | some e =>
      obtain rfl : (if e.upper then ch 'E' else ch 'e') = c := Option.some.inj hc
      cases e.upper <;> exact ⟨rfl, by decide⟩

/-- Neither a fraction nor an exponent begins with a digit, so the digits in front end there. -/
theorem decimals_head (f : Option (List (Fin 10))) (e : Option ExponentText) :
    ∀ c ∈ (fractionText f ++ exponentText e).head?, isDigitOf 10 c = false := by
  cases f with
  | none => exact fun c hc => (exponentText_head e c hc).1
  | some f =>
      intro c hc
      obtain rfl : ch '.' = c := Option.some.inj hc
      rfl

/-- A fraction and an exponent are told by their text. -/
theorem decimals_inj {f f' : Option (List (Fin 10))} {e e' : Option ExponentText}
    (h : fractionText f ++ exponentText e = fractionText f' ++ exponentText e') :
    f = f' ∧ e = e' := by
  have hpoint : ∀ {e : Option ExponentText} {s : Bytes}, exponentText e ≠ ch '.' :: s := by
    intro e s heq
    exact (exponentText_head e (ch '.') (by rw [heq]; rfl)).2 rfl
  cases f with
  | none =>
      cases f' with
      | none => exact ⟨rfl, exponentText_inj h⟩
      | some f' => exact absurd h hpoint
  | some f =>
      cases f' with
      | none => exact absurd h.symm hpoint
      | some f' =>
          obtain ⟨hdigits, hexponent⟩ := eq_of_all_append isDigitOf_digitsText
            isDigitOf_digitsText (fun c hc => (exponentText_head e c hc).1)
            (fun c hc => (exponentText_head e' c hc).1) (List.cons.inj h).2
          exact ⟨congrArg some (digitsText_inj hdigits), exponentText_inj hexponent⟩

/-- **Numbers.** Two numbers that are printed alike are the same number. -/
theorem NumberText.print_inj {x y : NumberText} (h : x.print = y.print) : x = y := by
  obtain ⟨negative, first, integral, fraction, exponent⟩ := x
  obtain ⟨negative', first', integral', fraction', exponent'⟩ := y
  simp only [NumberText.print] at h
  have hdigit : ∀ d : Fin 10, 48 + UInt8.ofNat d.val ≠ ch '-' := by decide
  obtain rfl : negative = negative' := by
    cases negative <;> cases negative'
    · rfl
    · exact absurd (List.cons.inj h).1 (hdigit first)
    · exact absurd (List.cons.inj h).1.symm (hdigit first')
    · rfl
  rw [List.append_assoc, List.append_assoc] at h
  obtain ⟨hdigits, hdecimals⟩ := eq_of_all_append isDigitOf_digitsText
    isDigitOf_digitsText (decimals_head fraction exponent)
    (decimals_head fraction' exponent') (List.append_cancel_left h)
  obtain ⟨rfl, rfl⟩ := List.cons.inj (digitsText_inj hdigits)
  obtain ⟨rfl, rfl⟩ := decimals_inj hdecimals
  rfl

/-- A number consists of digits, signs, a point and letters of an exponent. -/
theorem numberByte_of_mem_print (x : NumberText) : ∀ c ∈ x.print, isNumberByte c = true := by
  have hdigits : ∀ {digits : List (Fin 10)}, ∀ c ∈ digitsText digits, isNumberByte c = true :=
    all_digitsText (by decide)
  intro c hc
  simp only [NumberText.print, List.mem_append] at hc
  rcases hc with (hc | hc) | hc | hc
  · split at hc
    · rw [List.mem_singleton.mp hc]
      rfl
    · exact absurd hc (by simp)
  · exact hdigits c hc
  · cases hf : x.fraction with
    | none => exact absurd hc (by simp [hf, fractionText])
    | some f =>
        rw [hf, fractionText, List.mem_cons] at hc
        rcases hc with rfl | hc
        · rfl
        · exact hdigits c hc
  · cases he : x.exponent with
    | none => exact absurd hc (by simp [he, exponentText])
    | some e =>
        rw [he, exponentText, ExponentText.print_eq, List.mem_cons, List.mem_append] at hc
        rcases hc with rfl | hc | hc
        · cases e.upper <;> rfl
        · rcases hsign : e.sign with _ | _ | _ <;> rw [hsign, signText] at hc
          · exact absurd hc (by simp)
          · rw [List.mem_singleton.mp hc]
            rfl
          · rw [List.mem_singleton.mp hc]
            rfl
        · exact hdigits c hc

/-! ### Values -/

/-- What the first byte of a value tells about it. -/
inductive Kind
  | null
  | boolean
  | number
  | string
  | array
  | object
  | other
  deriving DecidableEq, Repr

/-- The kind of value a byte begins. -/
def kindOf (c : UInt8) : Kind :=
  if c = ch 'n' then .null
  else if c = ch 't' ∨ c = ch 'f' then .boolean
  else if isNumberByte c then .number
  else if c = ch '"' then .string
  else if c = ch '[' then .array
  else if c = ch '{' then .object
  else .other

/-- The kind of a value. -/
def Json.kind : Json → Kind
  | .null => .null
  | .boolean _ => .boolean
  | .number _ => .number
  | .string _ => .string
  | .array _ => .array
  | .object _ => .object

/-- A byte of a number begins nothing else. -/
theorem kindOf_number {c : UInt8} (h : isNumberByte c = true) : kindOf c = .number := by
  have hall : ∀ c ∈ ascii "+-.0123456789Ee", kindOf c = .number := by decide +kernel
  exact hall c (by simpa [isNumberByte] using h)

/-- The first byte of a value tells its kind. -/
theorem Json.print_head (v : Json) : ∃ c s, v.print = c :: s ∧ kindOf c = v.kind := by
  cases v with
  | null => exact ⟨_, _, rfl, rfl⟩
  | boolean b => cases b <;> exact ⟨_, _, rfl, rfl⟩
  | number x =>
      have hne : x.print ≠ [] := by simp [NumberText.print, digitsText]
      obtain ⟨c, s, hs⟩ := List.exists_cons_of_ne_nil hne
      have hmem : c ∈ x.print := by
        rw [hs]
        exact List.mem_cons_self
      exact ⟨c, s, hs, kindOf_number (numberByte_of_mem_print x c hmem)⟩
  | string s => exact ⟨_, _, rfl, rfl⟩
  | array vs => cases vs <;> exact ⟨_, _, rfl, rfl⟩
  | object ms => cases ms <;> exact ⟨_, _, rfl, rfl⟩

/-- Values with the same text are of the same kind, since its first byte tells it. -/
theorem Json.kind_eq {v v' : Json} {w w' : Bytes} (h : v.print ++ w = v'.print ++ w') :
    v.kind = v'.kind := by
  obtain ⟨c, s, hs, hc⟩ := v.print_head
  obtain ⟨c', s', hs', hc'⟩ := v'.print_head
  rw [hs, hs'] at h
  rw [← hc, ← hc', (List.cons.inj h).1]

/-- No value begins with a bracket that closes one. -/
theorem Json.print_append_ne (v : Json) {w : Bytes} {c : UInt8} {s : Bytes}
    (hc : kindOf c = .other) : v.print ++ w ≠ c :: s := by
  intro h
  obtain ⟨d, t, ht, hd⟩ := v.print_head
  rw [ht] at h
  rw [(List.cons.inj h).1, hc] at hd
  cases v <;> exact absurd hd (by simp [Json.kind])

/-- Behind a value no number goes on. -/
theorem afterString_number {w : Bytes} (hw : AfterString w) :
    ∀ c ∈ w.head?, isNumberByte c = false := by
  have hall : ∀ c ∈ ascii ",:]\x7d", isNumberByte c = false := by decide +kernel
  exact fun c hc => hall c (hw c hc)

/-- Strings with the same text are equal. -/
theorem StringText.eq_of_raw {s t : StringText} (h : s.raw = t.raw) : s = t := by
  obtain ⟨raw, hraw⟩ := s
  obtain ⟨raw', hraw'⟩ := t
  obtain rfl : raw = raw' := h
  rfl

mutual

/-- **One value.** Two valid values whose texts begin a common text, up to a separator, are the
same value. -/
theorem Json.print_inj (v v' : Json) {w w' : Bytes} (hv : v.wellFormed = true)
    (hv' : v'.wellFormed = true) (hw : AfterString w) (hw' : AfterString w')
    (h : v.print ++ w = v'.print ++ w') : v = v' ∧ w = w' := by
  have hkind := Json.kind_eq h
  match v, v' with
  | .null, .null => exact ⟨rfl, List.append_cancel_left h⟩
  | .boolean b, .boolean b' =>
      cases b <;> cases b'
      · exact ⟨rfl, List.append_cancel_left h⟩
      · exact absurd (List.cons.inj h).1 (by decide)
      · exact absurd (List.cons.inj h).1 (by decide)
      · exact ⟨rfl, List.append_cancel_left h⟩
  | .number x, .number y =>
      obtain ⟨hprint, hrest⟩ := eq_of_all_append (numberByte_of_mem_print x)
        (numberByte_of_mem_print y) (afterString_number hw) (afterString_number hw') h
      exact ⟨congrArg Json.number (NumberText.print_inj hprint), hrest⟩
  | .string s, .string t =>
      simp only [Json.print, List.cons_append, List.append_assoc, List.nil_append,
        List.cons.injEq, true_and] at h
      obtain ⟨hraw, hrest⟩ := eq_of_isStringBody hv hv' h
      exact ⟨congrArg Json.string (StringText.eq_of_raw hraw), hrest⟩
  | .array vs, .array vs' =>
      cases vs with
      | nil =>
          cases vs' with
          | nil => exact ⟨rfl, List.append_cancel_left h⟩
          | cons v' vs' =>
              have hrest : (v'.print ++ _) ++ w' = ch ']' :: w := (List.cons.inj h).2.symm
              rw [List.append_assoc] at hrest
              exact absurd hrest (v'.print_append_ne rfl)
      | cons v vs =>
          cases vs' with
          | nil =>
              have hrest : (v.print ++ _) ++ w = ch ']' :: w' := (List.cons.inj h).2
              rw [List.append_assoc] at hrest
              exact absurd hrest (v.print_append_ne rfl)
          | cons v' vs' =>
              obtain ⟨hvs, hrest⟩ := Json.elements_inj (v :: vs) (v' :: vs') hv hv' hw hw'
                (congrArg (ch ',' :: ·) (List.cons.inj h).2)
              exact ⟨congrArg Json.array hvs, hrest⟩
  | .object ms, .object ms' =>
      cases ms with
      | nil =>
          cases ms' with
          | nil => exact ⟨rfl, List.append_cancel_left h⟩
          | cons m' ms' => exact absurd (List.cons.inj (List.cons.inj h).2).1 (by decide)
      | cons m ms =>
          cases ms' with
          | nil => exact absurd (List.cons.inj (List.cons.inj h).2).1 (by decide)
          | cons m' ms' =>
              obtain ⟨hms, hrest⟩ := Json.members_inj (m :: ms) (m' :: ms') hv hv' hw hw'
                (congrArg (ch ',' :: ·) (List.cons.inj h).2)
              exact ⟨congrArg Json.object hms, hrest⟩

/-- Elements of an array are told by their text, by induction on both lists. -/
theorem Json.elements_inj (vs vs' : List Json) {w w' : Bytes}
    (hvs : Json.wellFormedElements vs = true) (hvs' : Json.wellFormedElements vs' = true)
    (hw : AfterString w) (hw' : AfterString w')
    (h : itemsTail (ch ']') (Json.printElements vs) ++ w
      = itemsTail (ch ']') (Json.printElements vs') ++ w') : vs = vs' ∧ w = w' := by
  match vs, vs' with
  | [], [] => exact ⟨rfl, (List.cons.inj h).2⟩
  | [], v' :: vs' => exact absurd (List.cons.inj h).1 (by decide)
  | v :: vs, [] => exact absurd (List.cons.inj h).1 (by decide)
  | v :: vs, v' :: vs' =>
      rw [Json.wellFormedElements, Bool.and_eq_true] at hvs hvs'
      rw [Json.printElements, Json.printElements, itemsTail, itemsTail, List.cons_append,
        List.cons_append, List.append_assoc, List.append_assoc] at h
      obtain ⟨rfl, hrest⟩ := Json.print_inj v v' hvs.1 hvs'.1
        (afterString_itemsTail (by decide) _ w) (afterString_itemsTail (by decide) _ w')
        (List.cons.inj h).2
      obtain ⟨rfl, rfl⟩ := Json.elements_inj vs vs' hvs.2 hvs'.2 hw hw' hrest
      exact ⟨rfl, rfl⟩

/-- Members of an object are told by their text. -/
theorem Json.members_inj (ms ms' : List (StringText × Json)) {w w' : Bytes}
    (hms : Json.wellFormedMembers ms = true) (hms' : Json.wellFormedMembers ms' = true)
    (hw : AfterString w) (hw' : AfterString w')
    (h : itemsTail (ch '}') ((Json.printMembers ms).map memberText) ++ w
      = itemsTail (ch '}') ((Json.printMembers ms').map memberText) ++ w') :
    ms = ms' ∧ w = w' := by
  match ms, ms' with
  | [], [] => exact ⟨rfl, (List.cons.inj h).2⟩
  | [], m' :: ms' => exact absurd (List.cons.inj h).1 (by decide)
  | m :: ms, [] => exact absurd (List.cons.inj h).1 (by decide)
  | (name, v) :: ms, (name', v') :: ms' =>
      obtain ⟨hname, hv, htail⟩ := Json.wellFormedMembers_cons.mp hms
      obtain ⟨hname', hv', htail'⟩ := Json.wellFormedMembers_cons.mp hms'
      simp only [Json.printMembers, List.map_cons, itemsTail, memberText, List.cons_append,
        List.append_assoc, List.cons.injEq, true_and] at h
      obtain ⟨hraw, hvalue⟩ := eq_of_isStringBody hname hname' h
      obtain rfl := StringText.eq_of_raw hraw
      obtain ⟨rfl, hrest⟩ := Json.print_inj v v' hv hv'
        (afterString_itemsTail (by decide) _ w) (afterString_itemsTail (by decide) _ w')
        (List.cons.inj hvalue).2
      obtain ⟨rfl, rfl⟩ := Json.members_inj ms ms' htail htail' hw hw' hrest
      exact ⟨rfl, rfl⟩

end

/-- The text of a valid value tells the value. -/
theorem Json.eq_of_print_eq {v v' : Json} (hv : v.wellFormed = true) (hv' : v'.wellFormed = true)
    (h : v.print = v'.print) : v = v' := by
  have hnil : AfterString [] := by simp [AfterString]
  exact (Json.print_inj v v' hv hv' hnil hnil (by rw [h])).1

end PppAmb
