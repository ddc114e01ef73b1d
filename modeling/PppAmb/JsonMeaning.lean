import PppAmb.JsonNumbers
import PppAmb.JsonReader

/-!
# What a JSON Text Means

A JSON text is the tokens of a value with white space between them; what it means is the value
with its strings decoded and its numbers evaluated.

## Main results

* `decodeLoop_length`: decoding makes a string shorter, unless every byte stands for itself.
* `spaced_print`: the compact text of a value is a text of it.
* `Spaced.length_print_le`: no text of a value is shorter.
-/

namespace PppAmb

/-! ### Strings that stand for themselves -/

/-- Neither a quote nor a backslash. -/
def isLiteral (c : UInt8) : Bool :=
  c != ch '"' && c != ch '\\'

theorem isLiteral_iff {c : UInt8} : isLiteral c = true ↔ c ≠ ch '"' ∧ c ≠ ch '\\' := by
  simp [isLiteral]

/-- The digits of a `\u` escape are consumed. -/
theorem decodeUnicodeEscapeSequence_length {s r : Bytes} {n : ℕ}
    (h : decodeUnicodeEscapeSequence s = some (n, r)) : s.length = r.length + 4 := by
  unfold decodeUnicodeEscapeSequence at h
  split at h
  · simp only [Option.bind_eq_bind, Option.bind_eq_some_iff, Option.pure_def, Option.some.injEq,
      Prod.mk.injEq] at h
    obtain ⟨-, -, -, -, -, -, -, -, -, rfl⟩ := h
    simp
  · exact absurd h (by simp)

theorem decodeUnicodeCodePoint_length {s r : Bytes} {n : ℕ}
    (h : decodeUnicodeCodePoint s = some (n, r)) : r.length + 4 ≤ s.length := by
  rw [decodeUnicodeCodePoint] at h
  obtain ⟨⟨unicode, t⟩, hseq, h⟩ := Option.bind_eq_some_iff.mp h
  have hfirst := decodeUnicodeEscapeSequence_length hseq
  simp only at h
  split at h
  · split at h
    · exact absurd h (by simp)
    · split at h
      · rename_i a b t'
        split at h
        · obtain ⟨⟨pair, t''⟩, hpair, h⟩ := Option.bind_eq_some_iff.mp h
          have hsecond := decodeUnicodeEscapeSequence_length hpair
          obtain ⟨-, hr⟩ := Prod.mk.inj (Option.some.inj h)
          simp only at hr
          subst hr
          simp only [List.length_cons] at hfirst
          omega
        · exact absurd h (by simp)
      · exact absurd h (by simp)
  · obtain ⟨-, rfl⟩ := Prod.mk.inj (Option.some.inj h)
    omega

theorem length_codePointToUTF8 (n : ℕ) : (codePointToUTF8 n).length ≤ 4 := by
  rw [codePointToUTF8]
  split_ifs <;> simp

/-- **Decoding.** A string stands for itself, or for something shorter. -/
theorem decodeLoop_length {n : ℕ} {raw out : Bytes} (h : decodeLoop n raw = some out) :
    (raw.all isLiteral = true ∧ out = raw) ∨ out.length < raw.length := by
  induction n generalizing raw out with
  | zero =>
      cases raw with
      | nil =>
          obtain rfl : [] = out := by simpa [decodeLoop] using h
          exact .inl ⟨rfl, rfl⟩
      | cons c r => exact absurd h (by simp [decodeLoop])
  | succ n ih =>
      cases raw with
      | nil =>
          obtain rfl : [] = out := by simpa [decodeLoop] using h
          exact .inl ⟨rfl, rfl⟩
      | cons c r =>
          have hle : ∀ {s t : Bytes}, decodeLoop n s = some t → t.length ≤ s.length := by
            intro s t hs
            rcases ih hs with ⟨-, rfl⟩ | hlt
            · exact le_rfl
            · exact hlt.le
          simp only [decodeLoop] at h
          split_ifs at h with hquote hslash
          · obtain rfl := Option.some.inj h
            exact .inr (by simp)
          · -- an escape is longer than what it stands for
            refine .inr ?_
            cases r with
            | nil => exact absurd h (by simp)
            | cons e r =>
                simp only at h
                split at h
                · obtain ⟨t, ht, rfl⟩ := Option.map_eq_some_iff.mp h
                  have := hle ht
                  simp only [List.length_cons]
                  omega
                · split at h
                  · obtain ⟨⟨unicode, s⟩, hcode, h⟩ := Option.bind_eq_some_iff.mp h
                    obtain ⟨t, ht, h⟩ := Option.bind_eq_some_iff.mp h
                    obtain rfl := Option.some.inj h
                    have hcode' := decodeUnicodeCodePoint_length hcode
                    have hutf8 := length_codePointToUTF8 unicode
                    have : t.length ≤ s.length := hle ht
                    simp only [List.length_append, List.length_cons]
                    omega
                  · exact absurd h (by simp)
          · obtain ⟨t, ht, rfl⟩ := Option.map_eq_some_iff.mp h
            rcases ih ht with ⟨hall, rfl⟩ | hlt
            · exact .inl ⟨by rw [List.all_cons, isLiteral_iff.mpr ⟨hquote, hslash⟩, hall]; rfl, rfl⟩
            · exact .inr (by simpa using hlt)

theorem decodeString_length {raw out : Bytes} (h : decodeString raw = some out) :
    (raw.all isLiteral = true ∧ out = raw) ∨ out.length < raw.length :=
  decodeLoop_length h

theorem decodeString_literal {s : Bytes} (h : s.all isLiteral = true) :
    decodeString s = some s := by
  have hloop : ∀ n, s.length ≤ n → decodeLoop n s = some s := by
    induction s with
    | nil => exact fun n _ => by cases n <;> rfl
    | cons c s ih =>
        intro n hn
        rw [List.all_cons, Bool.and_eq_true] at h
        obtain ⟨hquote, hslash⟩ := isLiteral_iff.mp h.1
        rcases n with _ | n
        · exact absurd hn (by simp)
        · simp only [decodeLoop, if_neg hquote, if_neg hslash, ih h.2 n (by simpa using hn),
            Option.map_some]
  exact hloop _ le_rfl

/-- A text that is its own text as a JSON string. -/
def Verbatim (s : Bytes) : Prop :=
  isStringBody s = true ∧ s.all isLiteral = true

/-- A string that decodes to a text of at least its length is that text. -/
theorem verbatim_of_length_le {raw s : Bytes} (hraw : isStringBody raw = true)
    (h : decodeString raw = some s) (hle : raw.length ≤ s.length) : raw = s ∧ Verbatim s := by
  rcases decodeString_length h with ⟨hall, rfl⟩ | hlt
  · exact ⟨rfl, hraw, hall⟩
  · omega

/-- The string of such a text. -/
def Verbatim.string {s : Bytes} (h : Verbatim s) : StringText :=
  ⟨s, isRawString_of_isStringBody h.1⟩

theorem Verbatim.decode {s : Bytes} (h : Verbatim s) : decodeString s = some s :=
  decodeString_literal h.2

/-! ### Meaning -/

/-- What a value means. -/
inductive Data
  | null
  | boolean (b : Bool)
  | number (q : ℚ)
  | string (s : Bytes)
  | array (elements : List Data)
  | object (members : List (Bytes × Data))

mutual

/-- What a value means; `none` if a string cannot be decoded. -/
def Json.data : Json → Option Data
  | .null => some .null
  | .boolean b => some (.boolean b)
  | .number x => some (.number x.value)
  | .string s => (decodeString s.raw).map .string
  | .array elements => (Json.dataElements elements).map .array
  | .object members => (Json.dataMembers members).map .object

/-- What the elements of an array mean. -/
def Json.dataElements : List Json → Option (List Data)
  | [] => some []
  | v :: vs => do
      let d ← v.data
      let ds ← Json.dataElements vs
      pure (d :: ds)

/-- What the members of an object mean. -/
def Json.dataMembers : List (StringText × Json) → Option (List (Bytes × Data))
  | [] => some []
  | (name, v) :: ms => do
      let name ← decodeString name.raw
      let d ← v.data
      let ds ← Json.dataMembers ms
      pure ((name, d) :: ds)

end

theorem Json.dataMembers_cons_eq_some {name : StringText} {v : Json} {ms : List (StringText × Json)}
    {ds : List (Bytes × Data)} : Json.dataMembers ((name, v) :: ms) = some ds ↔
      ∃ s d ds', decodeString name.raw = some s ∧ v.data = some d ∧
        Json.dataMembers ms = some ds' ∧ ds = (s, d) :: ds' := by
  simp only [Json.dataMembers, Option.bind_eq_bind, Option.bind_eq_some_iff, Option.pure_def,
    Option.some.injEq]
  constructor
  · rintro ⟨s, hs, d, hd, ds', hds, rfl⟩
    exact ⟨s, d, ds', hs, hd, hds, rfl⟩
  · rintro ⟨s, d, ds', hs, hd, hds, rfl⟩
    exact ⟨s, hs, d, hd, ds', hds, rfl⟩

theorem Json.length_dataMembers {ms : List (StringText × Json)} {ds : List (Bytes × Data)}
    (h : Json.dataMembers ms = some ds) : ms.length = ds.length := by
  induction ms generalizing ds with
  | nil =>
      obtain rfl : [] = ds := Option.some.inj h
      rfl
  | cons m ms ih =>
      obtain ⟨s, d, ds', -, -, hds, rfl⟩ := Json.dataMembers_cons_eq_some.mp h
      rw [List.length_cons, List.length_cons, ih hds]

/-- Members whose text is valid JSON, and what they mean. -/
def MembersMean (ms : List (StringText × Json)) (ds : List (Bytes × Data)) : Prop :=
  Json.wellFormedMembers ms = true ∧ Json.dataMembers ms = some ds

theorem membersMean_nil : MembersMean [] [] :=
  ⟨rfl, rfl⟩

theorem MembersMean.cons (name : StringText) {v : Json} {d : Data} {ms : List (StringText × Json)}
    {ds : List (Bytes × Data)} (hname : Verbatim name.raw) (hv : v.wellFormed = true)
    (hd : v.data = some d) (h : MembersMean ms ds) :
    MembersMean ((name, v) :: ms) ((name.raw, d) :: ds) := by
  exact ⟨Json.wellFormedMembers_cons.mpr ⟨hname.1, hv, h.1⟩,
    Json.dataMembers_cons_eq_some.mpr ⟨_, _, _, hname.decode, hd, h.2, rfl⟩⟩

theorem MembersMean.string (name : StringText) {s : Bytes} {ms : List (StringText × Json)}
    {ds : List (Bytes × Data)} (hname : Verbatim name.raw) (hs : Verbatim s)
    (h : MembersMean ms ds) :
    MembersMean ((name, .string hs.string) :: ms) ((name.raw, .string s) :: ds) := by
  have hdata : Json.data (.string hs.string) = some (.string s) :=
    congrArg (Option.map Data.string) hs.decode
  exact .cons name hname hs.1 hdata h

theorem Json.data_eq_object {v : Json} {ds : List (Bytes × Data)} (h : v.data = some (.object ds)) :
    ∃ ms, v = .object ms ∧ Json.dataMembers ms = some ds := by
  cases v with
  | object ms =>
      rw [Json.data] at h
      obtain ⟨ds', hds, heq⟩ := Option.map_eq_some_iff.mp h
      obtain rfl := Data.object.inj heq
      exact ⟨ms, rfl, hds⟩
  | null => exact absurd h (by simp [Json.data])
  | boolean b => exact absurd h (by simp [Json.data])
  | number x => exact absurd h (by simp [Json.data])
  | string s => exact absurd h (by simp [Json.data])
  | array vs => exact absurd h (by simp [Json.data])

theorem Json.data_eq_string {v : Json} {s : Bytes} (h : v.data = some (.string s)) :
    ∃ raw, v = .string raw ∧ decodeString raw.raw = some s := by
  cases v with
  | string raw =>
      rw [Json.data] at h
      obtain ⟨s', hs, heq⟩ := Option.map_eq_some_iff.mp h
      obtain rfl := Data.string.inj heq
      exact ⟨raw, rfl, hs⟩
  | null => exact absurd h (by simp [Json.data])
  | boolean b => exact absurd h (by simp [Json.data])
  | number x => exact absurd h (by simp [Json.data])
  | array vs => exact absurd h (by simp [Json.data])
  | object ms => exact absurd h (by simp [Json.data])

theorem Json.data_eq_null {v : Json} (h : v.data = some .null) : v = .null := by
  cases v <;> simp [Json.data] at h ⊢

/-! ### Tokens -/

/-- The tokens behind the first item, up to and including the closing bracket. -/
def tokensTail (close : UInt8) : List (List Bytes) → List Bytes
  | [] => [[close]]
  | ts :: tss => [ch ','] :: (ts ++ tokensTail close tss)

/-- The tokens of items between brackets. -/
def bracketedTokens (opening close : UInt8) : List (List Bytes) → List Bytes
  | [] => [[opening], [close]]
  | ts :: tss => [opening] :: (ts ++ tokensTail close tss)

/-- A string as a token. -/
def quoted (raw : Bytes) : Bytes :=
  ch '"' :: (raw ++ [ch '"'])

/-- The tokens of a member. -/
def memberTokens (m : Bytes × List Bytes) : List Bytes :=
  quoted m.1 :: [ch ':'] :: m.2

mutual

/-- The tokens of a value. -/
def Json.tokens : Json → List Bytes
  | .null => [ascii "null"]
  | .boolean b => [if b then ascii "true" else ascii "false"]
  | .number x => [x.print]
  | .string s => [quoted s.raw]
  | .array elements => bracketedTokens (ch '[') (ch ']') (Json.tokensElements elements)
  | .object members =>
      bracketedTokens (ch '{') (ch '}') ((Json.tokensMembers members).map memberTokens)

/-- The tokens of the elements of an array. -/
def Json.tokensElements : List Json → List (List Bytes)
  | [] => []
  | v :: vs => v.tokens :: Json.tokensElements vs

/-- The names and the tokens of the members of an object. -/
def Json.tokensMembers : List (StringText × Json) → List (Bytes × List Bytes)
  | [] => []
  | (name, v) :: ms => (name.raw, v.tokens) :: Json.tokensMembers ms

end

theorem flatten_tokensTail (close : UInt8) (tss : List (List Bytes)) :
    (tokensTail close tss).flatten = itemsTail close (tss.map List.flatten) := by
  induction tss with
  | nil => rfl
  | cons ts tss ih => simp [tokensTail, itemsTail, ih]

theorem flatten_bracketedTokens (opening close : UInt8) (tss : List (List Bytes)) :
    (bracketedTokens opening close tss).flatten
      = bracketed opening close (tss.map List.flatten) := by
  cases tss with
  | nil => rfl
  | cons ts tss => simp [bracketedTokens, bracketed, flatten_tokensTail]

theorem flatten_memberTokens (m : Bytes × List Bytes) :
    (memberTokens m).flatten = memberText (m.1, m.2.flatten) := by
  simp [memberTokens, memberText, quoted]

mutual

/-- Without white space the tokens are the compact text. -/
theorem Json.flatten_tokens (v : Json) : v.tokens.flatten = v.print :=
  match v with
  | .null => by simp [Json.tokens, Json.print]
  | .boolean b => by simp [Json.tokens, Json.print]
  | .number x => by simp [Json.tokens, Json.print]
  | .string s => by simp [Json.tokens, Json.print, quoted]
  | .array elements => by
      rw [Json.tokens, Json.print, flatten_bracketedTokens, Json.flatten_tokensElements elements]
  | .object members => by
      have hmembers := Json.flatten_tokensMembers members
      rw [Json.tokens, Json.print, flatten_bracketedTokens, objectText, ← hmembers]
      simp [Function.comp_def, flatten_memberTokens]

theorem Json.flatten_tokensElements (vs : List Json) :
    (Json.tokensElements vs).map List.flatten = Json.printElements vs :=
  match vs with
  | [] => rfl
  | v :: vs => by
      rw [Json.tokensElements, Json.printElements, List.map_cons, Json.flatten_tokens v,
        Json.flatten_tokensElements vs]

theorem Json.flatten_tokensMembers (ms : List (StringText × Json)) :
    (Json.tokensMembers ms).map (fun m => (m.1, m.2.flatten)) = Json.printMembers ms :=
  match ms with
  | [] => rfl
  | (name, v) :: ms => by
      rw [Json.tokensMembers, Json.printMembers, List.map_cons, Json.flatten_tokens v,
        Json.flatten_tokensMembers ms]

end

/-! ### Texts -/

/-- Nothing but the white space of JSON. -/
def IsJsonBlank (s : Bytes) : Prop :=
  ∀ c ∈ s, isJsonSpace c = true

/-- A text of some tokens, with white space around them. -/
inductive Spaced : List Bytes → Bytes → Prop
  | nil {w : Bytes} (hw : IsJsonBlank w) : Spaced [] w
  | cons {w t s : Bytes} {ts : List Bytes} (hw : IsJsonBlank w) (h : Spaced ts s) :
      Spaced (t :: ts) (w ++ (t ++ s))

/-- A text that means the object with the given members, in any order. -/
def MeansObject (text : Bytes) (members : List (Bytes × Data)) : Prop :=
  ∃ (v : Json) (ds : List (Bytes × Data)), v.wellFormed = true ∧ Spaced v.tokens text ∧
    v.data = some (.object ds) ∧ ds.Perm members

theorem MembersMean.meansObject {ms : List (StringText × Json)} {ds : List (Bytes × Data)}
    {text : Bytes} (h : MembersMean ms ds) (htext : Spaced (Json.object ms).tokens text) :
    MeansObject text ds :=
  ⟨.object ms, ds, h.1, htext, congrArg (Option.map Data.object) h.2, .refl ds⟩

theorem isJsonBlank_nil : IsJsonBlank [] := by
  simp [IsJsonBlank]

theorem spaced_flatten (ts : List Bytes) : Spaced ts ts.flatten := by
  induction ts with
  | nil => exact .nil isJsonBlank_nil
  | cons t ts ih => exact .cons (w := []) isJsonBlank_nil ih

/-- The compact text of a value is a text of it. -/
theorem spaced_print (v : Json) : Spaced v.tokens v.print := by
  rw [← v.flatten_tokens]
  exact spaced_flatten _

theorem Spaced.length_le {ts : List Bytes} {s : Bytes} (h : Spaced ts s) :
    ts.flatten.length ≤ s.length := by
  induction h with
  | nil => simp
  | cons hw h ih =>
      simp only [List.flatten_cons, List.length_append]
      omega

/-- No text of a value is shorter than the compact one. -/
theorem Spaced.length_print_le {v : Json} {s : Bytes} (h : Spaced v.tokens s) :
    v.print.length ≤ s.length := by
  rw [← v.flatten_tokens]
  exact h.length_le

/-- White space in front of a token. -/
theorem Spaced.blank {c : UInt8} {s : Bytes} {ts : List Bytes} (hc : isJsonSpace c = true)
    (h : Spaced ts s) : Spaced ts (c :: s) := by
  have hcons : ∀ {w : Bytes}, IsJsonBlank w → IsJsonBlank (c :: w) := fun hw d hd =>
    (List.mem_cons.mp hd).elim (fun heq => heq ▸ hc) (hw d)
  cases h with
  | nil hw => exact .nil (hcons hw)
  | cons hw h => exact .cons (hcons hw) h

theorem Spaced.token {ts : List Bytes} {s : Bytes} (h : Spaced ts s) (t : Bytes) :
    Spaced (t :: ts) (t ++ s) :=
  .cons (w := []) isJsonBlank_nil h

/-- The first token of a text that does not begin with white space. -/
theorem Spaced.first {c : UInt8} {t s : Bytes} {ts : List Bytes} (h : Spaced (t :: ts) (c :: s))
    (hc : isJsonSpace c = false) : ∃ r, c :: s = t ++ r ∧ Spaced ts r := by
  generalize htext : c :: s = text at h
  cases h with
  | @cons w t r ts hw h =>
      cases w with
      | nil => exact ⟨r, rfl, h⟩
      | cons d w =>
          have hd := hw d List.mem_cons_self
          rw [← (List.cons.inj htext).1, hc] at hd
          exact absurd hd (by simp)

/-- The first token behind a blank, if it does not begin with one. -/
theorem Spaced.behind_blank {c d : UInt8} {t s : Bytes} {ts : List Bytes}
    (h : Spaced ((d :: t) :: ts) (c :: s)) (hc : isJsonSpace c = true)
    (hd : isJsonSpace d = false) : Spaced ((d :: t) :: ts) s := by
  generalize htext : c :: s = text at h
  cases h with
  | @cons w t' r ts hw h =>
      cases w with
      | nil =>
          rw [List.nil_append, List.cons_append] at htext
          rw [(List.cons.inj htext).1, hd] at hc
          exact absurd hc (by simp)
      | cons e w =>
          rw [List.cons_append] at htext
          rw [(List.cons.inj htext).2]
          exact .cons (fun b hb => hw b (List.mem_cons_of_mem e hb)) h

/-! ### How long a text is -/

/-- Every item takes one byte more, and so does the opening bracket. -/
theorem length_bracketed (opening close : UInt8) {ts : List Bytes} (h : ts ≠ []) :
    (bracketed opening close ts).length = (ts.map fun t => t.length + 1).sum + 1 := by
  have htail : ∀ ts : List Bytes,
      (itemsTail close ts).length = (ts.map fun t => t.length + 1).sum + 1 := by
    intro ts
    induction ts with
    | nil => rfl
    | cons t ts ih =>
        rw [itemsTail, List.length_cons, List.length_append, ih, List.map_cons, List.sum_cons]
        omega
  obtain ⟨t, ts, rfl⟩ := List.exists_cons_of_ne_nil h
  rw [← htail]
  rfl

/-! ### Reading a text token by token -/

theorem Spaced.mark {c : UInt8} {s : Bytes} {ts : List Bytes} (h : Spaced ([c] :: ts) (c :: s))
    (hc : isJsonSpace c = false) : Spaced ts s := by
  obtain ⟨r, hr, hrest⟩ := h.first hc
  obtain rfl : s = r := (List.cons.inj hr).2
  exact hrest

/-- A string in front of a text is the string it begins with. -/
theorem Spaced.quoted {s raw t : Bytes} {ts : List Bytes} (hs : isStringBody s = true)
    (hraw : isStringBody raw = true)
    (h : Spaced (quoted raw :: ts) (ch '"' :: (s ++ ch '"' :: t))) : raw = s ∧ Spaced ts t := by
  obtain ⟨r, hr, hrest⟩ := h.first rfl
  rw [PppAmb.quoted, List.cons_append, List.append_assoc] at hr
  obtain ⟨rfl, rfl⟩ := eq_of_isStringBody hs hraw (List.cons.inj hr).2
  exact ⟨rfl, hrest⟩

/-- **Strings.** A text between quotes that is read as a string with the meaning of that text
stands for itself, unless the string can end further behind. -/
theorem Spaced.verbatim {s raw t : Bytes} {ts : List Bytes} (hraw : isStringBody raw = true)
    (hdecode : decodeString raw = some s)
    (h : Spaced (PppAmb.quoted raw :: ts) (ch '"' :: (s ++ ch '"' :: t)))
    (hbehind : ∀ u r, isStringBody u = true → t = u ++ ch '"' :: r → ¬ Spaced ts r) :
    Verbatim s ∧ Spaced ts t := by
  obtain ⟨r, hr, hrest⟩ := h.first rfl
  rw [PppAmb.quoted, List.cons_append, List.append_assoc] at hr
  have htext : s ++ ch '"' :: t = raw ++ ch '"' :: r := (List.cons.inj hr).2
  rcases append_cons_eq_append_cons htext with ⟨rfl, rfl⟩ | ⟨u, rfl, -⟩ | ⟨u, rfl, ht⟩
  · exact ⟨(verbatim_of_length_le hraw hdecode le_rfl).2, hrest⟩
  · -- the string ends inside of the text
    obtain ⟨heq, -⟩ := verbatim_of_length_le hraw hdecode (by simp)
    exact absurd (congrArg List.length heq) (by simp)
  · exact absurd hrest (hbehind u r (isStringBody_of_append_quote hraw) ht)

/-- Behind an item comes a comma and the next item, or the closing bracket. -/
theorem Spaced.comma {close : UInt8} {tss : List (List Bytes)} {s : Bytes}
    (h : Spaced (tokensTail close tss) (ch ',' :: s)) (hclose : close ≠ ch ',') :
    ∃ ts tss', tss = ts :: tss' ∧ Spaced (ts ++ tokensTail close tss') s := by
  cases tss with
  | nil =>
      obtain ⟨r, hr, -⟩ := Spaced.first (t := [close]) h rfl
      exact absurd (List.cons.inj hr).1.symm hclose
  | cons ts tss => exact ⟨ts, tss, rfl, Spaced.mark h rfl⟩

end PppAmb
