import PppAmb.CityText

/-!
# The Search for a Member

`json_get_string` looks for `"key":"` anywhere in a text. This module shows what that finds in a
compact JSON text whose names hold no backslash: the first member with this name and a string as
its value, at any depth, and nothing else.

## Main results

* `Json.members_print`: the members of a text, read off from front to back.
* `Members.strstr_eq`: where the search for a name ends.
* `json_get_string_first_member`: what `json_get_string` returns, and what it leaves in the array.
-/

namespace PppAmb

/-! ### Members -/

/-- The member itself, if its value is a string. -/
def ownMember (name : StringText) : Json → List (Bytes × Bytes)
  | .string s => [(name.raw, s.raw)]
  | _ => []

mutual

/-- The members with a string as their value, at any depth, in the order of the text. Names and
values are as they are printed. -/
def Json.stringMembers : Json → List (Bytes × Bytes)
  | .array elements => Json.stringMembersElements elements
  | .object members => Json.stringMembersMembers members
  | _ => []

/-- Those of the elements of an array. -/
def Json.stringMembersElements : List Json → List (Bytes × Bytes)
  | [] => []
  | v :: vs => v.stringMembers ++ Json.stringMembersElements vs

/-- Those of the members of an object. -/
def Json.stringMembersMembers : List (StringText × Json) → List (Bytes × Bytes)
  | [] => []
  | (name, v) :: ms => ownMember name v ++ (v.stringMembers ++ Json.stringMembersMembers ms)

end

mutual

/-- No name at any depth holds a backslash. -/
def Json.plainNames : Json → Bool
  | .array elements => Json.plainNamesElements elements
  | .object members => Json.plainNamesMembers members
  | _ => true

/-- No name in the elements of an array holds a backslash. -/
def Json.plainNamesElements : List Json → Bool
  | [] => true
  | v :: vs => v.plainNames && Json.plainNamesElements vs

/-- No name in the members of an object holds a backslash. -/
def Json.plainNamesMembers : List (StringText × Json) → Bool
  | [] => true
  | (name, v) :: ms => !name.raw.contains (ch '\\') && v.plainNames && Json.plainNamesMembers ms

end

/-! ### The members of a text -/

/-- What may stand behind a value: the end, or what separates or closes. -/
def AfterValue (s : Bytes) : Prop :=
  ∀ c ∈ s.head?, c ∈ ascii ",]\x7d"

/-- A text whose quotes all belong to strings, with its members in the order of the text. A
string is a value, the name of a value that is no string, or the name of a string. -/
inductive Members : Bytes → List (Bytes × Bytes) → Prop
  | none {s : Bytes} (hs : s.all isOutside = true) : Members s []
  | value {before raw after : Bytes} {l : List (Bytes × Bytes)}
      (hbefore : before.all isOutside = true) (hraw : isStringBody raw = true)
      (hafter : AfterValue after) (hrest : Members after l) :
      Members (before ++ (ch '"' :: (raw ++ [ch '"']) ++ after)) l
  | name {before name after : Bytes} {l : List (Bytes × Bytes)}
      (hbefore : before.all isOutside = true) (hname : isStringBody name = true)
      (hplain : ch '"' ∉ name) (hafter : after.head? ≠ some (ch '"')) (hrest : Members after l) :
      Members (before ++ (ch '"' :: (name ++ [ch '"']) ++ ch ':' :: after)) l
  | member {before name raw after : Bytes} {l : List (Bytes × Bytes)}
      (hbefore : before.all isOutside = true) (hname : isStringBody name = true)
      (hplain : ch '"' ∉ name) (hraw : isStringBody raw = true) (hafter : AfterValue after)
      (hrest : Members after l) :
      Members (before ++ (ch '"' :: (name ++ [ch '"']) ++
        ch ':' :: (ch '"' :: (raw ++ [ch '"']) ++ after))) ((name, raw) :: l)

/-- Bytes that are no part of a string in front of such a text. -/
theorem Members.append {s t : Bytes} {l : List (Bytes × Bytes)} (hs : s.all isOutside = true)
    (ht : Members t l) : Members (s ++ t) l := by
  have hall : ∀ {before : Bytes}, before.all isOutside = true →
      (s ++ before).all isOutside = true := fun hbefore => by
    rw [List.all_append, hs, hbefore, Bool.and_self]
  cases ht with
  | none ht => exact .none (hall ht)
  | value hbefore hraw hafter hrest =>
      rw [← List.append_assoc]
      exact .value (hall hbefore) hraw hafter hrest
  | name hbefore hname hplain hafter hrest =>
      rw [← List.append_assoc]
      exact .name (hall hbefore) hname hplain hafter hrest
  | member hbefore hname hplain hraw hafter hrest =>
      rw [← List.append_assoc]
      exact .member (hall hbefore) hname hplain hraw hafter hrest

theorem Members.cons {c : UInt8} {t : Bytes} {l : List (Bytes × Bytes)} (hc : isOutside c = true)
    (ht : Members t l) : Members (c :: t) l :=
  Members.append (s := [c]) (by simpa using hc) ht

theorem afterValue_itemsTail {close : UInt8} (hclose : close ∈ ascii ",]\x7d")
    (ts : List Bytes) (w : Bytes) : AfterValue (itemsTail close ts ++ w) := by
  intro c hc
  cases ts with
  | nil =>
      obtain rfl : close = c := by simpa [itemsTail] using hc
      exact hclose
  | cons t ts =>
      obtain rfl : ch ',' = c := by simpa [itemsTail] using hc
      decide

/-- A string without a backslash holds no quote. -/
theorem quote_not_mem_of_plain {s : Bytes} (hs : isStringBody s = true) (hplain : ch '\\' ∉ s) :
    ch '"' ∉ s := by
  have hrun : ∀ {t : Bytes} {st : StringState}, st ≠ .escaped → st.run t = some .between →
      ch '\\' ∉ t → ch '"' ∉ t := by
    intro t
    induction t with
    | nil => simp
    | cons c t ih =>
        intro st hst hrun hslash
        rw [List.mem_cons, not_or] at hslash
        rw [StringState.run_cons] at hrun
        obtain ⟨next, hstep, hrest⟩ := Option.bind_eq_some_iff.mp hrun
        rcases step_cases hstep with ⟨-, hnext, hc⟩ | ⟨-, hc, -⟩ | ⟨hescaped, -, -⟩
        · rw [List.mem_cons, not_or]
          refine ⟨?_, ih hnext hrest hslash.2⟩
          rintro rfl
          exact absurd hc (by decide)
        · exact absurd hc.symm hslash.1
        · exact absurd hescaped hst
  exact hrun (by simp) (isStringBody_iff.mp hs) hplain

/-- A value that is no string does not begin with a quote. -/
theorem head_print_ne_quote {v : Json} (hv : ∀ s, v ≠ .string s) (w : Bytes) :
    (v.print ++ w).head? ≠ some (ch '"') := by
  cases v with
  | null => simp [Json.print, ascii, ch]
  | boolean b => cases b <;> simp [Json.print, ascii, ch]
  | number x =>
      have hfirst : ∀ d : Fin 10, 48 + UInt8.ofNat d.val ≠ ch '"' := by decide
      rw [Json.print, NumberText.print]
      split
      · simp [ch]
      · simpa [digitsText] using hfirst x.first
  | string s => exact absurd rfl (hv s)
  | array elements =>
      rw [Json.print]
      cases Json.printElements elements <;> simp [bracketed, ch]
  | object members =>
      rw [Json.print, objectText]
      cases (Json.printMembers members).map memberText <;> simp [bracketed, ch]

/-- A member in front of such a text. -/
theorem Members.own {name : StringText} {v : Json} {w : Bytes} {l : List (Bytes × Bytes)}
    (hname : isStringBody name.raw = true) (hplain : ch '\\' ∉ name.raw)
    (hv : v.wellFormed = true) (hafter : AfterValue w) (hw : Members w l)
    (hvalue : Members (v.print ++ w) (v.stringMembers ++ l)) :
    Members (memberText (name.raw, v.print) ++ w) (ownMember name v ++ (v.stringMembers ++ l)) := by
  have hquote := quote_not_mem_of_plain hname hplain
  by_cases hstring : ∃ s, v = .string s
  · obtain ⟨s, rfl⟩ := hstring
    have htext : memberText (name.raw, (Json.string s).print) ++ w
        = [] ++ (ch '"' :: (name.raw ++ [ch '"']) ++
          ch ':' :: (ch '"' :: (s.raw ++ [ch '"']) ++ w)) := by
      simp [memberText, Json.print]
    have hnone : (Json.string s).stringMembers = [] := by simp [Json.stringMembers]
    rw [htext, hnone]
    exact .member rfl hname hquote hv hafter hw
  · push Not at hstring
    have hown : ownMember name v = [] := by
      cases v with
      | string s => exact absurd rfl (hstring s)
      | _ => rfl
    have htext : memberText (name.raw, v.print) ++ w
        = [] ++ (ch '"' :: (name.raw ++ [ch '"']) ++ ch ':' :: (v.print ++ w)) := by
      simp [memberText]
    rw [htext, hown]
    exact .name rfl hname hquote (head_print_ne_quote hstring w) hvalue

mutual

/-- **Members.** The text of a valid value in front of such a text. -/
theorem Json.members_print (v : Json) (hv : v.wellFormed = true) (hplain : v.plainNames = true)
    {w : Bytes} {l : List (Bytes × Bytes)} (hafter : AfterValue w) (hw : Members w l) :
    Members (v.print ++ w) (v.stringMembers ++ l) :=
  match v with
  | .null => Members.append rfl hw
  | .boolean b => by
      rw [Json.print]
      exact Members.append (by cases b <;> rfl) hw
  | .number x => Members.append (number_outside x) hw
  | .string s => by
      have htext : (Json.string s).print ++ w = [] ++ (ch '"' :: (s.raw ++ [ch '"']) ++ w) := rfl
      rw [htext]
      exact .value rfl hv hafter hw
  | .array [] => Members.append (s := [ch '[', ch ']']) rfl hw
  | .array (v :: vs) => by
      rw [Json.wellFormed, Json.wellFormedElements, Bool.and_eq_true] at hv
      rw [Json.plainNames, Json.plainNamesElements, Bool.and_eq_true] at hplain
      rw [Json.print, Json.printElements, bracketed, List.cons_append, List.append_assoc,
        Json.stringMembers, Json.stringMembersElements, List.append_assoc]
      exact Members.cons rfl (Json.members_print v hv.1 hplain.1
        (afterValue_itemsTail (by decide) _ w)
        (Json.members_elements vs hv.2 hplain.2 hafter hw))
  | .object [] => Members.append (s := [ch '{', ch '}']) rfl hw
  | .object ((name, v) :: ms) => by
      rw [Json.wellFormed, Json.wellFormedMembers, Bool.and_eq_true, Bool.and_eq_true] at hv
      simp only [Json.plainNames, Json.plainNamesMembers, Bool.and_eq_true, Bool.not_eq_true',
        List.contains_eq_mem, decide_eq_false_iff_not] at hplain
      rw [Json.print, Json.printMembers, objectText, List.map_cons, bracketed, List.cons_append,
        List.append_assoc, Json.stringMembers, Json.stringMembersMembers, List.append_assoc,
        List.append_assoc]
      have hrest := Json.members_members ms hv.2 hplain.2 hafter hw
      have hclose := afterValue_itemsTail (by decide : ch '}' ∈ ascii ",]\x7d")
        ((Json.printMembers ms).map memberText) w
      exact Members.cons rfl (Members.own hv.1.1 hplain.1.1 hv.1.2 hclose hrest
        (Json.members_print v hv.1.2 hplain.1.2 hclose hrest))

theorem Json.members_elements (vs : List Json) (hvs : Json.wellFormedElements vs = true)
    (hplain : Json.plainNamesElements vs = true) {w : Bytes} {l : List (Bytes × Bytes)}
    (hafter : AfterValue w) (hw : Members w l) :
    Members (itemsTail (ch ']') (Json.printElements vs) ++ w)
      (Json.stringMembersElements vs ++ l) :=
  match vs with
  | [] => Members.cons rfl hw
  | v :: vs => by
      rw [Json.wellFormedElements, Bool.and_eq_true] at hvs
      rw [Json.plainNamesElements, Bool.and_eq_true] at hplain
      rw [Json.printElements, itemsTail, List.cons_append, List.append_assoc,
        Json.stringMembersElements, List.append_assoc]
      exact Members.cons rfl (Json.members_print v hvs.1 hplain.1
        (afterValue_itemsTail (by decide) _ w)
        (Json.members_elements vs hvs.2 hplain.2 hafter hw))

theorem Json.members_members (ms : List (StringText × Json))
    (hms : Json.wellFormedMembers ms = true) (hplain : Json.plainNamesMembers ms = true)
    {w : Bytes} {l : List (Bytes × Bytes)} (hafter : AfterValue w) (hw : Members w l) :
    Members (itemsTail (ch '}') ((Json.printMembers ms).map memberText) ++ w)
      (Json.stringMembersMembers ms ++ l) :=
  match ms with
  | [] => Members.cons rfl hw
  | (name, v) :: ms => by
      obtain ⟨hname, hv, htail⟩ := Json.wellFormedMembers_cons.mp hms
      simp only [Json.plainNamesMembers, Bool.and_eq_true, Bool.not_eq_true',
        List.contains_eq_mem, decide_eq_false_iff_not] at hplain
      rw [Json.printMembers, List.map_cons, itemsTail, List.cons_append, List.append_assoc,
        Json.stringMembersMembers, List.append_assoc, List.append_assoc]
      have hrest := Json.members_members ms htail hplain.2 hafter hw
      have hclose := afterValue_itemsTail (by decide : ch '}' ∈ ascii ",]\x7d")
        ((Json.printMembers ms).map memberText) w
      exact Members.cons rfl (Members.own hname hplain.1.1 hv hclose hrest
        (Json.members_print v hv hplain.1.2 hclose hrest))

end

theorem JsonValue.members (v : JsonValue) (hplain : v.value.plainNames = true) :
    Members v.text v.value.stringMembers := by
  have h := Json.members_print v.value v.valid hplain (by simp [AfterValue]) (.none (s := []) rfl)
  rwa [List.append_nil, List.append_nil] at h

/-! ### The search -/

section Search

variable {key : Bytes}

/-- Outside of the strings no name begins. -/
theorem strstr_outside {s : Bytes} (hs : s.all isOutside = true) (t : Bytes) :
    strstr (memberStart key) (s ++ t) = strstr (memberStart key) t := by
  refine strstr_skip fun u v huv hv hstart => ?_
  rcases v with _ | ⟨c, v⟩
  · exact hv rfl
  · rw [memberStart, List.cons_append, List.cons_prefix_cons] at hstart
    exact quote_not_mem_outside hs (by rw [huv, hstart.1]; simp)

theorem strstr_colon (t : Bytes) :
    strstr (memberStart key) (ch ':' :: t) = strstr (memberStart key) t :=
  strstr_outside (s := [ch ':']) rfl t

/-- A string is passed over, unless it is the name itself, or ends with it behind an escaped
quote, and the text of a string follows. -/
theorem strstr_string (hkey : isName key = true) {raw after : Bytes}
    (hraw : isStringBody raw = true) (hafter : AfterString after)
    (hother : ∀ t, after = ch ':' :: ch '"' :: t → raw ≠ key ∧ ch '"' ∉ raw) :
    strstr (memberStart key) (ch '"' :: (raw ++ [ch '"']) ++ after)
      = strstr (memberStart key) after := by
  rw [isName, Bool.and_eq_true] at hkey
  obtain ⟨hbody, hhead⟩ := hkey
  -- what begins with the name is the name, and what follows is a string
  have hname : ∀ {z s : Bytes}, isStringBody z = true →
      z ++ ch '"' :: after = key ++ ch '"' :: ch ':' :: ch '"' :: s →
      z = key ∧ raw ≠ key ∧ ch '"' ∉ raw := by
    intro z s hz heq
    obtain ⟨rfl, rfl⟩ := eq_of_isStringBody hz hbody heq
    exact ⟨rfl, hother s rfl⟩
  refine strstr_skip fun u v huv hv hstart => ?_
  obtain ⟨s, hs⟩ := hstart
  have hoccur : v ++ after = ch '"' :: (key ++ ch '"' :: ch ':' :: ch '"' :: s) := by
    rw [← hs]
    simp [memberStart, ascii, ch]
  rcases v with _ | ⟨c, v⟩
  · exact hv rfl
  · rw [List.cons_append] at hoccur
    obtain ⟨rfl, htail⟩ := List.cons.inj hoccur
    rcases append_cons_eq_append_cons (s := []) huv with ⟨-, rfl⟩ | ⟨w, hw, -⟩ | ⟨w, -, hin⟩
    · -- the opening quote
      rw [List.append_assoc] at htail
      obtain ⟨heq, hne, -⟩ := hname hraw htail
      exact hne heq
    · exact absurd hw (by simp)
    · rcases append_cons_eq_append_cons hin with ⟨-, rfl⟩ | ⟨z, rfl, rfl⟩ | ⟨z, -, hz⟩
      · -- the closing quote
        rcases key with _ | ⟨k, key⟩
        · exact absurd hhead (by simp)
        · have hk : k ∈ ascii ",:]\x7d" := hafter k (by rw [← List.nil_append after, htail]; rfl)
          exact absurd hhead (by simp [hk])
      · -- an escaped quote
        rw [List.append_assoc] at htail
        exact (hname (isStringBody_of_append_quote hraw) htail).2.2 (by simp)
      · exact absurd hz (by simp)

theorem AfterValue.afterString {s : Bytes} (h : AfterValue s) : AfterString s := by
  intro c hc
  have hclose : ∀ c ∈ ascii ",]\x7d", c ∈ ascii ",:]\x7d" := by decide +kernel
  exact hclose c (h c hc)

/-- No colon stands behind a value. -/
theorem AfterValue.ne_colon {s : Bytes} (h : AfterValue s) (t : Bytes) : s ≠ ch ':' :: t := by
  rintro rfl
  exact absurd (h (ch ':') rfl) (by decide)

theorem afterString_colon (s : Bytes) : AfterString (ch ':' :: s) := by
  intro c hc
  obtain rfl : ch ':' = c := by simpa using hc
  decide

/-- Where the search for a name ends: nowhere, or at the start of the member. -/
def FoundAt (key : Bytes) : Option (Bytes × Bytes) → Option Bytes → Prop
  | none, found => found = none
  | some m, found => ∃ t, found = some (memberStart key ++ (m.2 ++ ch '"' :: t))

/-- **The search** ends at the first member with the name. -/
theorem Members.strstr_eq (hkey : isName key = true) {w : Bytes} {l : List (Bytes × Bytes)}
    (h : Members w l) :
    FoundAt key (l.find? fun m => m.1 = key) (strstr (memberStart key) w) := by
  induction h with
  | @none s hs =>
      have hskip := @strstr_outside key s hs []
      rw [List.append_nil] at hskip
      rw [hskip]
      exact rfl
  | value hbefore hraw hafter hrest ih =>
      rw [strstr_outside hbefore, strstr_string hkey hraw hafter.afterString fun t ht =>
        absurd ht (hafter.ne_colon _)]
      exact ih
  | @name before name after l hbefore hname hplain hafter hrest ih =>
      have hother : ∀ t, ch ':' :: after = ch ':' :: ch '"' :: t → name ≠ key ∧ ch '"' ∉ name := by
        intro t ht
        exact absurd (by rw [(List.cons.inj ht).2]; rfl) hafter
      rw [strstr_outside hbefore, strstr_string hkey hname (afterString_colon _) hother,
        strstr_colon]
      exact ih
  | @member before name raw after l hbefore hname hplain hraw hafter hrest ih =>
      rw [strstr_outside hbefore]
      by_cases heq : name = key
      · subst heq
        have hfind : ((name, raw) :: l).find? (fun m => m.1 = name) = some (name, raw) := by simp
        rw [hfind]
        refine ⟨after, ?_⟩
        have htext : ch '"' :: (name ++ [ch '"']) ++
            ch ':' :: (ch '"' :: (raw ++ [ch '"']) ++ after)
            = memberStart name ++ (raw ++ ch '"' :: after) := by
          simp [memberStart, ascii, ch]
        rw [htext]
        exact strstr_front _ _
      · have hfind : ((name, raw) :: l).find? (fun m => m.1 = key)
            = l.find? fun m => m.1 = key := List.find?_cons_of_neg (by simpa using heq)
        rw [hfind, strstr_string hkey hname (afterString_colon _) fun t ht => ⟨heq, hplain⟩,
          strstr_colon, strstr_string hkey hraw hafter.afterString fun t ht =>
            absurd ht (hafter.ne_colon _)]
        exact ih

/-! ### What is found -/

/-- The letters of ASCII and the underscore. -/
def isKeyByte (c : UInt8) : Bool :=
  (ch 'a' ≤ c && c ≤ ch 'z') || (ch 'A' ≤ c && c ≤ ch 'Z') || c = ch '_'

/-- A plain byte of ASCII stands between two characters. -/
theorem step_plain {c : UInt8} (hplain : isPlain c = true) (hascii : c < 0x80) :
    StringState.between.step c = some .between := by
  have hslash : c ≠ ch '\\' := by
    rintro rfl
    exact absurd hplain (by decide)
  simp [StringState.step, firstByte, hslash, hplain, hascii]

theorem isKeyByte_plain {c : UInt8} (h : isKeyByte c = true) :
    isPlain c = true ∧ c < 0x80 ∧ c ∉ ascii ",:]\x7d" := by
  have hrange : 65 ≤ c ∧ c ≤ 122 := by
    simp only [isKeyByte, Bool.or_eq_true, Bool.and_eq_true, decide_eq_true_eq] at h
    rcases h with (⟨hlow, hhigh⟩ | ⟨hlow, hhigh⟩) | rfl
    · exact ⟨UInt8.le_trans (by decide) hlow, hhigh⟩
    · exact ⟨hlow, UInt8.le_trans hhigh (by decide)⟩
    · decide
  have hslash : c ≠ ch '\\' := by
    rintro rfl
    exact absurd h (by decide)
  refine ⟨isPlain_of_le (UInt8.le_trans (by decide) hrange.1) hslash,
    UInt8.lt_of_le_of_lt hrange.2 (by decide), fun hmem => ?_⟩
  have hcases : c = 44 ∨ c = 58 ∨ c = 93 ∨ c = 125 := by simpa [ascii] using hmem
  rcases hcases with rfl | rfl | rfl | rfl <;> exact absurd h (by decide)

theorem isName_of_keyBytes (hne : key ≠ []) (hkey : key.all isKeyByte = true) :
    isName key = true := by
  have hrun : ∀ {s : Bytes}, s.all isKeyByte = true →
      StringState.between.run s = some .between := by
    intro s hs
    induction s with
    | nil => rfl
    | cons c s ih =>
        rw [List.all_cons, Bool.and_eq_true] at hs
        obtain ⟨hplain, hascii, -⟩ := isKeyByte_plain hs.1
        rw [StringState.run_cons, step_plain hplain hascii]
        exact ih hs.2
  rw [isName, Bool.and_eq_true]
  refine ⟨isStringBody_iff.mpr (hrun hkey), ?_⟩
  rcases key with _ | ⟨c, key⟩
  · exact absurd rfl hne
  · have hc := List.all_eq_true.mp hkey c List.mem_cons_self
    simpa using (isKeyByte_plain hc).2.2

/-- `json_get_string` with the array `out`: its result, and the array behind it. -/
def json_get_string_out (json key out : Bytes) : Bool × Bytes :=
  match json_get_string json key out.length with
  | none => (false, out)
  | some value => (true, memcpy out 0 (value ++ [0]))

/-- The first member with the name and a string as its value. -/
def JsonValue.firstMember (v : JsonValue) (key : Bytes) : Option (Bytes × Bytes) :=
  v.value.stringMembers.find? fun m => m.1 = key

/-- **The first member.** In a compact JSON text whose names hold no backslash `json_get_string`
finds the first member with the name and a string as its value, at any depth. If there is none, or
its value is empty, it returns `false` and leaves the array as it is; otherwise the array begins
with the text of the value, cut to its length less one, and a terminator. -/
theorem json_get_string_first_member (v : JsonValue) (hplain : v.value.plainNames = true)
    (hne : key ≠ []) (hlen : key.length ≤ 58) (hkey : key.all isKeyByte = true) {out : Bytes}
    (hout : out ≠ []) (hquote : ∀ m, v.firstMember key = some m → ch '"' ∉ m.2) :
    json_get_string_out v.text key out =
      match v.firstMember key with
      | none => (false, out)
      | some m =>
          if m.2 = [] then (false, out)
          else (true, memcpy out 0 (m.2.take (out.length - 1) ++ [0])) := by
  have hlength : out.length ≠ 0 := fun h => hout (List.length_eq_zero_iff.mp h)
  have hfound := (v.members hplain).strstr_eq (isName_of_keyBytes hne hkey)
  rw [json_get_string_out, json_get_string, if_neg hlength]
  have hpat := @json_get_string_pat key (by omega)
  simp only [hpat]
  rw [← JsonValue.firstMember] at hfound
  cases hfirst : v.firstMember key with
  | none =>
      rw [hfirst] at hfound
      have hnone : strstr (memberStart key) v.text = none := hfound
      simp only [hnone]
  | some m =>
      rw [hfirst] at hfound
      obtain ⟨t, ht⟩ : ∃ t, strstr (memberStart key) v.text
        = some (memberStart key ++ (m.2 ++ ch '"' :: t)) := hfound
      simp only [ht, List.drop_left, cutAt_append (hquote m hfirst)]
      by_cases hempty : m.2 = []
      · simp [hempty]
      · simp [hempty]

end Search

theorem isRawString_city : isRawString (ascii "city") = true :=
  rfl

theorem isRawString_puebla : isRawString (ascii "Puebla") = true :=
  rfl

/-- `{"note":"\"city\":\"x","city":null,"near":[{"city":"Puebla"}],"city":"Lima"}`. -/
def nestedCity : JsonValue where
  value := .object [
    (plainName "note" rfl, .string (plainName "\\\"city\\\":\\\"x" rfl)),
    (plainName "city" isRawString_city, .null),
    (plainName "near" rfl, .array [.object [
      (plainName "city" isRawString_city, .string (plainName "Puebla" isRawString_puebla))]]),
    (plainName "city" isRawString_city, .string (plainName "Lima" rfl))]
  valid := by decide

theorem firstMember_nested :
    nestedCity.firstMember (ascii "city") = some (ascii "city", ascii "Puebla") := by
  decide

/-- The text in the value and the null are passed over, and the nested name is cut. -/
theorem json_get_string_first_member_nested :
    json_get_string_out nestedCity.text (ascii "city") (zeroed 4) = (true, ascii "Pue" ++ [0]) := by
  have hquote : ∀ m, nestedCity.firstMember (ascii "city") = some m → ch '"' ∉ m.2 := by
    intro m hm
    obtain rfl := Option.some.inj (firstMember_nested.symm.trans hm)
    decide
  have hout : zeroed 4 ≠ [] := by decide
  rw [json_get_string_first_member nestedCity (by decide) (by decide) (by decide) (by decide) hout
    hquote, firstMember_nested]
  rfl

end PppAmb
