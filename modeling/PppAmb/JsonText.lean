import PppAmb.CString

/-!
# JSON Texts

JSON values and the compact text they are printed as. The texts cover all of JSON; of the
digits behind `\u` and of leading zeros they know nothing.
-/

namespace PppAmb

/-- Bytes that stand for themselves inside a string. -/
def isPlain (c : UInt8) : Bool :=
  32 ≤ c && c != ch '"' && c != ch '\\'

/-- Bytes that may follow a backslash inside a string. -/
def isEscape (c : UInt8) : Bool :=
  c ∈ ascii "\"\\/bfnrtu"

/-- The text between the quotes of a string. -/
def isRawString : Bytes → Bool
  | [] => true
  | [c] => isPlain c
  | c :: e :: r =>
      if c = ch '\\' then isEscape e && isRawString r else isPlain c && isRawString (e :: r)

/-- A string as it is printed, without its quotes. -/
structure StringText where
  raw : Bytes
  valid : isRawString raw = true

/-- A name that stands for itself. -/
def plainName (s : String) (h : isRawString (ascii s) = true) : StringText :=
  ⟨ascii s, h⟩

/-- A text of plain bytes is a string. -/
theorem isRawString_of_plain {s : Bytes} (h : ∀ c ∈ s, isPlain c = true) :
    isRawString s = true := by
  induction s with
  | nil => rfl
  | cons c s ih =>
      obtain ⟨hc, hs⟩ := List.forall_mem_cons.mp h
      cases s with
      | nil => exact hc
      | cons e r =>
          have hne : c ≠ ch '\\' := by
            simp only [isPlain, Bool.and_eq_true, bne_iff_ne] at hc
            exact hc.2
          simp [isRawString, hne, hc, ih hs]

/-- A run of decimal digits as it is printed. -/
def digitsText (digits : List (Fin 10)) : Bytes :=
  digits.map fun d : Fin 10 => 48 + UInt8.ofNat d.val

/-- The exponent of a number: its mark, its sign if there is one, and its digits. -/
structure ExponentText where
  upper : Bool
  sign : Option Bool
  digits : List (Fin 10)

def ExponentText.print (e : ExponentText) : Bytes :=
  (if e.upper then ch 'E' else ch 'e') ::
    ((match e.sign with
      | none => []
      | some true => [ch '-']
      | some false => [ch '+']) ++ digitsText e.digits)

/-- A number as it is printed. -/
structure NumberText where
  negative : Bool
  first : Fin 10
  integral : List (Fin 10)
  fraction : Option (List (Fin 10))
  exponent : Option ExponentText

/-- The optional fraction. -/
def fractionText : Option (List (Fin 10)) → Bytes
  | none => []
  | some digits => ch '.' :: digitsText digits

/-- The optional exponent. -/
def exponentText : Option ExponentText → Bytes
  | none => []
  | some e => e.print

def NumberText.print (x : NumberText) : Bytes :=
  (if x.negative then [ch '-'] else []) ++ digitsText (x.first :: x.integral)
    ++ (fractionText x.fraction ++ exponentText x.exponent)

/-- JSON values. -/
inductive Json
  | null
  | boolean (b : Bool)
  | number (x : NumberText)
  | string (s : StringText)
  | array (elements : List Json)
  | object (members : List (StringText × Json))

/-- What follows the first item up to and including the closing bracket. -/
def itemsTail (close : UInt8) : List Bytes → Bytes
  | [] => [close]
  | t :: ts => ch ',' :: (t ++ itemsTail close ts)

/-- Items between brackets, separated by commas. -/
def bracketed (opening close : UInt8) : List Bytes → Bytes
  | [] => [opening, close]
  | t :: ts => opening :: (t ++ itemsTail close ts)

/-- Items with commas between them. -/
theorem append_itemsTail (close : UInt8) (t : Bytes) (ts : List Bytes) :
    t ++ itemsTail close ts = ((t :: ts).intersperse (ascii ",")).flatten ++ [close] := by
  induction ts generalizing t with
  | nil => simp [itemsTail]
  | cons u us ih =>
      rw [itemsTail, ih u]
      simp [ascii, ch]

/-- A member of an object from the text of its name and of its value. -/
def memberText (m : Bytes × Bytes) : Bytes :=
  ch '"' :: (m.1 ++ ch '"' :: ch ':' :: m.2)

/-- An object from the texts of its members. -/
def objectText (members : List (Bytes × Bytes)) : Bytes :=
  bracketed (ch '{') (ch '}') (members.map memberText)

mutual

/-- The compact text of a value. -/
def Json.print : Json → Bytes
  | .null => ascii "null"
  | .boolean b => if b then ascii "true" else ascii "false"
  | .number x => x.print
  | .string s => ch '"' :: (s.raw ++ [ch '"'])
  | .array elements => bracketed (ch '[') (ch ']') (Json.printElements elements)
  | .object members => objectText (Json.printMembers members)

/-- The texts of the elements of an array. -/
def Json.printElements : List Json → List Bytes
  | [] => []
  | v :: vs => v.print :: Json.printElements vs

/-- The texts of the members of an object. -/
def Json.printMembers : List (StringText × Json) → List (Bytes × Bytes)
  | [] => []
  | (name, v) :: ms => (name.raw, v.print) :: Json.printMembers ms

end

/-- Every text in an array is the text of a value. -/
theorem Json.mem_printElements {elements : List Json} {t : Bytes}
    (h : t ∈ Json.printElements elements) : ∃ v : Json, t = v.print := by
  induction elements with
  | nil => exact absurd h (by simp [Json.printElements])
  | cons v vs ih =>
      rw [Json.printElements] at h
      rcases List.mem_cons.mp h with rfl | h
      · exact ⟨v, rfl⟩
      · exact ih h

/-- Every member of an object is a string and the text of a value. -/
theorem Json.mem_printMembers {members : List (StringText × Json)} {m : Bytes × Bytes}
    (h : m ∈ Json.printMembers members) : isRawString m.1 = true ∧ ∃ v : Json, m.2 = v.print := by
  induction members with
  | nil => exact absurd h (by simp [Json.printMembers])
  | cons a ms ih =>
      obtain ⟨name, v⟩ := a
      rw [Json.printMembers] at h
      rcases List.mem_cons.mp h with rfl | h
      · exact ⟨name.valid, v, rfl⟩
      · exact ih h

end PppAmb
