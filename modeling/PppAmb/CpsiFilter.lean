import PppAmb.CDigits
import PppAmb.CpsiAccepted

/-!
# What the Filter of Cell Reports Lets Pass

`cpsi_se_ve_valido` is meant to turn away reports without service and reports of a null
cell, and searches the whole line for the texts that give these away. This module gives the
lines of the two forms that `parse_cpsi_line` is documented with, for a cell that is not
null in any respect, and says which of them the filter lets pass.

## Main results

* `cpsi_se_ve_valido_iff`: the filter in terms of what occurs in the line.
* `serving_cell_passes_iff`: the report of a serving cell passes unless two adjacent radio
  fields are zero and another field follows.
-/

namespace PppAmb

/-! ### Printed integers -/

theorem signed_eq_zero_iff {z : Int} : signed z = [48] ↔ z = 0 := by
  constructor
  · intro h
    rw [signed] at h
    split at h
    · have hminus : ch '-' = 48 := Option.some.inj (congrArg List.head? h)
      exact absurd hminus (by decide)
    · have hzero := unsigned_head (n := z.natAbs) (by rw [← List.nil_append (unsigned _), h]; rfl)
      omega
  · rintro rfl
    rfl

/-- An integer is not printed as several zeros. -/
theorem signed_ne_zeros (z : Int) (n : ℕ) : signed z ≠ List.replicate (n + 2) 48 := by
  intro h
  rw [signed] at h
  split at h
  · have hminus : ch '-' = 48 := Option.some.inj (congrArg List.head? h)
    exact absurd hminus (by decide)
  · rw [List.nil_append] at h
    have hzero := unsigned_head (n := z.natAbs) (by rw [h]; rfl)
    rw [hzero] at h
    have hone : (unsigned 0).length = 1 := rfl
    rw [h, List.length_replicate] at hone
    omega

/-! ### Reports of a serving cell -/

/-- A letter. -/
def isalpha (c : UInt8) : Bool :=
  (65 ≤ c && c ≤ 90) || (97 ≤ c && c ≤ 122)

/-- Words of letters, with spaces between them. -/
def IsName (s : Bytes) : Prop :=
  ∀ c ∈ s, isalpha c = true ∨ c = 32

/-- The fields of a report that tell the carrier: `55,EUTRAN-BAND5` in the form for LTE and
`733 PCS 1900` in the form for GSM. -/
inductive Carrier where
  | lte (pcell : Int) (band : ℕ)
  | gsm (arfcn : ℕ) (name : Bytes) (band : ℕ)

/-- The band number. -/
def Carrier.band : Carrier → ℕ
  | .lte _ band => band
  | .gsm _ _ band => band

/-- The field in front of the one with the band. -/
def Carrier.pcellFields : Carrier → List Bytes
  | .lte pcell _ => [signed pcell]
  | .gsm _ _ _ => []

/-- The field with the band. -/
def Carrier.bandField : Carrier → Bytes
  | .lte _ band => ascii "EUTRAN-BAND" ++ unsigned band
  | .gsm arfcn name band => unsigned arfcn ++ 32 :: (name ++ 32 :: unsigned band)

/-- The name of the band is a word. -/
def Carrier.Named : Carrier → Prop
  | .lte _ _ => True
  | .gsm _ name _ => ∀ c ∈ name, isalpha c = true

/-- A report of the documented form on a cell that is not null: it is in service, and its
country, area, cell and band are not zero. The radio fields that follow are any integers. -/
structure ServingCell where
  mode : Bytes
  state : Bytes
  mcc : ℕ
  mnc : ℕ
  tac : ℕ
  cell_id : ℕ
  mccText : Bytes
  mncText : Bytes
  tacText : Bytes
  cellText : Bytes
  carrier : Carrier
  radio : List Int
  mode_name : IsName mode
  mode_service : ¬ ascii "NO SERVICE" <:+: mode
  state_name : IsName state
  state_service : ¬ ascii "NO SERVICE" <:+: state
  mcc_range : 100 ≤ mcc ∧ mcc ≤ 999
  tac_ne : tac ≠ 0
  cell_ne : cell_id ≠ 0
  mcc_text : decimal mccText = some mcc
  mnc_text : decimal mncText = some mnc
  tac_text : Prints tacText tac
  cell_text : Prints cellText cell_id
  carrier_named : carrier.Named
  band_ne : carrier.band ≠ 0

/-- The fields behind the first one and in front of the one with the band. -/
def ServingCell.front (l : ServingCell) : List Bytes :=
  l.state :: (l.mccText ++ ch '-' :: l.mncText) :: l.tacText :: l.cellText :: l.carrier.pcellFields

/-- The fields of the line. -/
def ServingCell.fields (l : ServingCell) : List Bytes :=
  (ascii "+CPSI: " ++ l.mode) :: (l.front ++ l.carrier.bandField :: l.radio.map signed)

/-- The line. -/
def ServingCell.text (l : ServingCell) : Bytes :=
  [ch ','].intercalate l.fields

/-! ### Single fields -/

/-- A field that has none of the texts the filter searches for within a field. -/
structure Harmless (field : Bytes) : Prop where
  comma : ch ',' ∉ field
  service : ¬ ascii "NO SERVICE" <:+: field
  plmn : ¬ ascii "000-00" <:+: field
  band : ¬ ascii "BAND0" <:+: field

/-- A pattern does not occur where one of its bytes does not. -/
theorem not_infix_of_mem {c : UInt8} {pattern s : Bytes} (hc : c ∈ pattern) (hs : c ∉ s) :
    ¬ pattern <:+: s :=
  fun h => hs (h.subset hc)

/-- A name in which no service is not mentioned. -/
theorem harmless_name {s : Bytes} (hname : IsName s) (hservice : ¬ ascii "NO SERVICE" <:+: s) :
    Harmless s := by
  have hnot : ∀ c, isalpha c = false → c ≠ 32 → c ∉ s := by
    intro c hc hspace hmem
    rcases hname c hmem with h | h
    · simp [hc] at h
    · exact hspace h
  have hzero : (48 : UInt8) ∉ s := hnot 48 rfl (by decide)
  exact ⟨hnot _ rfl (by decide), hservice, not_infix_of_mem (by decide) hzero,
    not_infix_of_mem (by decide) hzero⟩

/-- A text of digits, with at most one dash, that is not behind three zeros. -/
theorem harmless_digits {s : Bytes} (hdigits : ∀ c ∈ s, isDigitOf 16 c = true ∨ c = 120 ∨ c = 88 ∨
      c = 45) (hplmn : ¬ ascii "000-00" <:+: s) : Harmless s := by
  have hnot : ∀ c, isDigitOf 16 c = false → c ≠ 120 → c ≠ 88 → c ≠ 45 → c ∉ s := by
    intro c hc h₁ h₂ h₃ hmem
    rcases hdigits c hmem with h | h | h | h
    · simp [hc] at h
    · exact h₁ h
    · exact h₂ h
    · exact h₃ h
  have hn : (78 : UInt8) ∉ s := hnot 78 rfl (by decide) (by decide) (by decide)
  exact ⟨hnot _ rfl (by decide) (by decide) (by decide), not_infix_of_mem (by decide) hn,
    hplmn, not_infix_of_mem (by decide) hn⟩

theorem harmless_prints {s : Bytes} {v : ℕ} (h : Prints s v) : Harmless s := by
  have hbytes : ∀ c ∈ s, isDigitOf 16 c = true ∨ c = 120 ∨ c = 88 := by
    intro c hc
    rcases h with ⟨hdec, -⟩ | ⟨x, r, rfl, hx, -, hr, -⟩
    · exact Or.inl (isDigitOf_mono (by omega : 10 ≤ 16) ((decimal_digits hdec).2 c hc))
    · rcases List.mem_cons.mp hc with rfl | hc
      · exact Or.inl rfl
      · rcases List.mem_cons.mp hc with rfl | hc
        · exact Or.inr hx
        · exact Or.inl (List.all_eq_true.mp hr c hc)
  refine harmless_digits (fun c hc => ?_) (not_infix_of_mem (c := 45) (by decide) fun hc => ?_)
  · rcases hbytes c hc with h | h | h
    · exact Or.inl h
    · exact Or.inr (Or.inl h)
    · exact Or.inr (Or.inr (Or.inl h))
  · rcases hbytes _ hc with h | h | h
    · exact absurd h (by decide)
    · exact absurd h (by decide)
    · exact absurd h (by decide)

/-- Two texts of digits with a dash between them, the first of which does not end in three
zeros. -/
theorem harmless_dashed {s t : Bytes} (hs : ∀ c ∈ s, isDigitOf 10 c = true)
    (ht : ∀ c ∈ t, isDigitOf 10 c = true) (hzeros : ¬ ascii "000" <:+ s) :
    Harmless (s ++ 45 :: t) := by
  refine harmless_digits (fun c hc => ?_) fun hin => ?_
  · rcases List.mem_append.mp hc with hc | hc
    · exact Or.inl (isDigitOf_mono (by omega : 10 ≤ 16) (hs c hc))
    · rcases List.mem_cons.mp hc with rfl | hc
      · exact Or.inr (Or.inr (Or.inr rfl))
      · exact Or.inl (isDigitOf_mono (by omega : 10 ≤ 16) (ht c hc))
  · have hcases := infix_cons_cases (u := ascii "000") (v := ascii "00") (not_mem_digits hs rfl) (by decide) hin
    rcases hcases with ⟨hsuffix, -⟩ | hin
    · exact hzeros hsuffix
    · exact not_infix_of_mem (c := 45) (by decide) (not_mem_digits ht rfl) hin

theorem harmless_unsigned (n : ℕ) : Harmless (unsigned n) :=
  harmless_digits (fun c hc => Or.inl (isDigitOf_mono (by omega : 10 ≤ 16) (unsigned_digits n c hc)))
    (not_infix_of_mem (c := 45) (by decide) (not_mem_digits (unsigned_digits n) rfl))

theorem harmless_signed (z : Int) : Harmless (signed z) := by
  rw [signed]
  split
  · exact harmless_dashed (s := []) (by simp) (unsigned_digits _) (by decide)
  · exact harmless_unsigned _

/-- A country code does not end in three zeros. -/
theorem harmless_plmn (l : ServingCell) : Harmless (l.mccText ++ ch '-' :: l.mncText) := by
  refine harmless_dashed (decimal_digits l.mcc_text).2 (decimal_digits l.mnc_text).2 ?_
  rintro ⟨u, hu⟩
  have hvalue := decimal_value l.mcc_text
  rw [← hu, digitsValue_append] at hvalue
  have hthree : digitsValue 10 (ascii "000") = 0 := rfl
  have hlen : (ascii "000").length = 3 := rfl
  rw [hthree, hlen] at hvalue
  have hrange := l.mcc_range
  omega

/-- The first field. -/
theorem harmless_mode (l : ServingCell) : Harmless (ascii "+CPSI: " ++ l.mode) := by
  have hmode := harmless_name l.mode_name l.mode_service
  -- the colon is in none of the patterns, and nothing is found on its left side
  have hsplit : ∀ {pattern : Bytes}, (58 : UInt8) ∉ pattern → ¬ pattern <:+: ascii "+CPSI" →
      ¬ pattern <+: 32 :: l.mode → ¬ pattern <:+: l.mode →
      ¬ pattern <:+: ascii "+CPSI: " ++ l.mode := by
    intro pattern hcolon hleft hpre hright hin
    have hline : ascii "+CPSI: " ++ l.mode = ascii "+CPSI" ++ 58 :: (32 :: l.mode) := rfl
    rw [hline, infix_append_cons hcolon, List.infix_cons_iff] at hin
    rcases hin with h | h | h
    · exact hleft h
    · exact hpre h
    · exact hright h
  have hhead : ∀ {c : UInt8} {pattern : Bytes}, c ≠ 32 → ¬ c :: pattern <+: 32 :: l.mode :=
    fun hc h => hc (List.cons_prefix_cons.mp h).1
  refine ⟨fun hmem => ?_, hsplit (by decide) (by decide) (hhead (by decide)) hmode.service,
    hsplit (by decide) (by decide) (hhead (by decide)) hmode.plmn,
    hsplit (by decide) (by decide) (hhead (by decide)) hmode.band⟩
  rcases List.mem_append.mp hmem with hmem | hmem
  · exact absurd hmem (by decide)
  · exact hmode.comma hmem

/-- The field with the band of an LTE cell. -/
theorem harmless_lteBand {band : ℕ} (hband : band ≠ 0) :
    Harmless (ascii "EUTRAN-BAND" ++ unsigned band) := by
  have hdigits : ∀ {c : UInt8}, isDigitOf 10 c = false → c ∉ unsigned band :=
    not_mem_digits (unsigned_digits band)
  have hnot : ∀ c, c ∉ ascii "EUTRAN-BAND" → isDigitOf 10 c = false →
      c ∉ ascii "EUTRAN-BAND" ++ unsigned band := by
    intro c hc hdigit
    simp [hc, hdigits hdigit]
  have hfield : ascii "EUTRAN-BAND" ++ unsigned band
      = ascii "EUTRAN" ++ 45 :: (ascii "BAND" ++ unsigned band) := rfl
  refine ⟨hnot _ (by decide) rfl, ?_, ?_, ?_⟩
  · exact not_infix_of_mem (c := 32) (by decide) (hnot 32 (by decide) rfl)
  · have hdash : (45 : UInt8) ∉ ascii "BAND" ++ unsigned band := by
      rw [List.mem_append, not_or]
      exact ⟨by decide, hdigits rfl⟩
    intro hin
    rw [hfield] at hin
    rcases infix_cons_cases (u := ascii "000") (v := ascii "00") (by decide) (by decide) hin with
      ⟨hsuffix, -⟩ | hin
    · exact absurd hsuffix (by decide)
    · exact not_infix_of_mem (c := 45) (by decide) hdash hin
  · -- the zero would be the first digit of the band
    intro hin
    rw [hfield, infix_append_cons (by decide)] at hin
    rcases hin with hin | hin
    · exact absurd hin (by decide)
    · have hcons : ascii "BAND" ++ unsigned band = 66 :: (ascii "AND" ++ unsigned band) := rfl
      rw [hcons, List.infix_cons_iff] at hin
      rcases hin with hpre | hin
      · rw [← hcons] at hpre
        have hzero : [48] <+: unsigned band := (List.prefix_append_right_inj (ascii "BAND")).mp hpre
        obtain ⟨t, ht⟩ := hzero
        have hhead : (unsigned band).head? = some 48 := by
          rw [← ht]
          rfl
        exact hband (unsigned_head hhead)
      · have hb : (66 : UInt8) ∉ ascii "AND" ++ unsigned band := by
          rw [List.mem_append, not_or]
          exact ⟨by decide, hdigits rfl⟩
        exact not_infix_of_mem (c := 66) (by decide) hb hin

/-- The field with the band of another cell. -/
theorem harmless_namedBand {name : Bytes} (hname : ∀ c ∈ name, isalpha c = true)
    (arfcn band : ℕ) : Harmless (unsigned arfcn ++ 32 :: (name ++ 32 :: unsigned band)) := by
  have harfcn := harmless_unsigned arfcn
  have hnum := harmless_unsigned band
  have hnot : ∀ c, isalpha c = false → c ∉ name := by
    intro c hc hmem
    simp [hname c hmem] at hc
  have hspace : (32 : UInt8) ∉ unsigned arfcn := not_mem_digits (unsigned_digits arfcn) rfl
  have hdash : (45 : UInt8) ∉ unsigned arfcn ++ 32 :: (name ++ 32 :: unsigned band) := by
    simp [not_mem_digits (unsigned_digits arfcn) (c := 45) rfl,
      not_mem_digits (unsigned_digits band) (c := 45) rfl, hnot 45 rfl]
  refine ⟨?_, ?_, not_infix_of_mem (by decide) hdash, ?_⟩
  · have hcomma := hnot (ch ',') rfl
    simp [harfcn.comma, hnum.comma, hcomma]
    decide
  · -- of the two spaces the first is behind a digit, and the second in front of one
    intro hin
    rcases infix_cons_cases (u := ascii "NO") (v := ascii "SERVICE") hspace (by decide) hin with
      ⟨hsuffix, -⟩ | hin
    · exact not_mem_digits (unsigned_digits arfcn) rfl
        (hsuffix.subset (show (79 : UInt8) ∈ ascii "NO" by decide))
    · rcases infix_cons_cases (u := ascii "NO") (v := ascii "SERVICE") (hnot 32 rfl)
        (by decide) hin with ⟨-, hpre⟩ | hin
      · exact not_mem_digits (unsigned_digits band) rfl
          (hpre.subset (show (83 : UInt8) ∈ ascii "SERVICE" by decide))
      · exact hnum.service hin
  · -- the band stands behind a space, and the zero in no name
    intro hin
    rw [infix_append_cons (by decide), infix_append_cons (by decide)] at hin
    rcases hin with hin | hin | hin
    · exact harfcn.band hin
    · exact not_infix_of_mem (c := 48) (by decide) (hnot 48 rfl) hin
    · exact hnum.band hin

/-- The field with the band. -/
theorem harmless_band {carrier : Carrier} (hnamed : carrier.Named) (hband : carrier.band ≠ 0) :
    Harmless carrier.bandField := by
  cases carrier with
  | lte pcell band => exact harmless_lteBand hband
  | gsm arfcn name band => exact harmless_namedBand hnamed arfcn band

/-- Every field of the report is harmless by itself. -/
theorem ServingCell.harmless (l : ServingCell) : ∀ field ∈ l.fields, Harmless field := by
  intro field hfield
  rcases List.mem_cons.mp hfield with rfl | hfield
  · exact harmless_mode l
  · rcases List.mem_append.mp hfield with hfront | hrest
    · simp only [ServingCell.front, List.mem_cons] at hfront
      rcases hfront with rfl | rfl | rfl | rfl | hcell
      · exact harmless_name l.state_name l.state_service
      · exact harmless_plmn l
      · exact harmless_prints l.tac_text
      · exact harmless_prints l.cell_text
      · cases hcar : l.carrier with
        | lte pcell band =>
            rw [hcar] at hcell
            rw [List.mem_singleton.mp hcell]
            exact harmless_signed pcell
        | gsm arfcn name band =>
            rw [hcar] at hcell
            exact absurd hcell (by simp [Carrier.pcellFields])
    · rcases List.mem_cons.mp hrest with rfl | hradio
      · exact harmless_band l.carrier_named l.band_ne
      · obtain ⟨z, -, rfl⟩ := List.mem_map.mp hradio
        exact harmless_signed z

/-! ### Null fields -/

theorem digitsValue_zeros (base n : ℕ) : digitsValue base (List.replicate n 48) = 0 := by
  induction n with
  | zero => rfl
  | succ n ih =>
      have hone : digitsValue base [48] = 0 := by simp [digitsValue, digitValue]
      rw [List.replicate_succ', digitsValue_append, ih, hone, Nat.zero_mul]

/-- A number that is not zero is not printed as zeros. -/
theorem prints_ne_zeros {s : Bytes} {v : ℕ} (h : Prints s v) (hv : v ≠ 0) (n : ℕ) :
    s ≠ List.replicate n 48 := by
  rintro rfl
  rcases h with ⟨hdec, -⟩ | ⟨x, r, hs, hx, -, -, -⟩
  · exact hv ((decimal_value hdec).symm.trans (digitsValue_zeros 10 n))
  · have hmem : x ∈ List.replicate n (48 : UInt8) := by simp [hs]
    rw [List.eq_of_mem_replicate hmem] at hx
    exact absurd hx (by decide)

/-- A text with a byte that is no zero. -/
theorem ne_zeros_of_mem {c : UInt8} {s : Bytes} (hc : c ∈ s) (hne : c ≠ 48) (n : ℕ) :
    s ≠ List.replicate n 48 := by
  rintro rfl
  exact hne (List.eq_of_mem_replicate hc)

theorem bandField_ne_zeros (carrier : Carrier) (n : ℕ) :
    carrier.bandField ≠ List.replicate n 48 := by
  cases carrier with
  | lte pcell band =>
      exact ne_zeros_of_mem (c := 69) (List.mem_append_left _ (by decide)) (by decide) n
  | gsm arfcn name band =>
      exact ne_zeros_of_mem (c := 32) (List.mem_append_right _ List.mem_cons_self) (by decide) n

/-- Before the cell of the carrier no field is printed as zeros. -/
theorem ServingCell.front_ne_zeros (l : ServingCell) (n : ℕ) :
    l.state ≠ List.replicate (n + 1) 48 ∧
      l.mccText ++ ch '-' :: l.mncText ≠ List.replicate (n + 1) 48 ∧
      l.tacText ≠ List.replicate (n + 1) 48 ∧ l.cellText ≠ List.replicate (n + 1) 48 := by
  refine ⟨fun hstate => ?_, ?_, prints_ne_zeros l.tac_text l.tac_ne _,
    prints_ne_zeros l.cell_text l.cell_ne _⟩
  · have hmem : (48 : UInt8) ∈ l.state := by simp [hstate]
    rcases l.state_name _ hmem with h | h
    · exact absurd h (by decide)
    · exact absurd h (by decide)
  · exact ne_zeros_of_mem (List.mem_append_right _ List.mem_cons_self) (by decide) _

/-- What occurs in all but the last of the fields does so on one side of the band, which is
not in it. -/
theorem infix_dropLast_append_cons {b : Bytes} {pattern front rest : List Bytes}
    (hb : b ∉ pattern) : pattern <:+: (front ++ b :: rest).dropLast ↔
      pattern <:+: front ∨ pattern <:+: rest.dropLast := by
  rcases List.eq_nil_or_concat rest with rfl | ⟨rest, last, rfl⟩
  · rw [List.dropLast_append_cons, List.dropLast_singleton, List.append_nil, List.dropLast_nil]
    exact ⟨Or.inl, fun h => h.elim id fun hnil => List.infix_nil.mp hnil ▸ List.nil_infix⟩
  · have hlast : (front ++ b :: rest.concat last).dropLast = front ++ b :: rest := by
      rw [List.concat_eq_append, ← List.cons_append, ← List.append_assoc, List.dropLast_concat]
    rw [hlast, List.concat_eq_append, List.dropLast_concat, infix_append_cons hb]

/-- Two null fields with a field behind them are radio fields. -/
theorem ServingCell.nulls_iff (l : ServingCell) :
    [[48], [48]] <:+: l.fields.tail.dropLast ↔ [0, 0] <:+: l.radio.dropLast := by
  obtain ⟨hstate, hplmn, htac, hcell⟩ := l.front_ne_zeros 0
  have hband : l.carrier.bandField ∉ [[48], [48]] := by
    intro hmem
    have heq : l.carrier.bandField = [48] := by simpa using hmem
    exact bandField_ne_zeros l.carrier 1 heq
  have hfront : ¬ [[48], [48]] <:+: l.front := by
    have hsplit : l.front = [l.state, l.mccText ++ ch '-' :: l.mncText, l.tacText]
        ++ l.cellText :: l.carrier.pcellFields := rfl
    rw [hsplit, infix_append_cons (by simpa using hcell)]
    rintro (h | h)
    · have hmem : [48] ∈ [l.state, l.mccText ++ ch '-' :: l.mncText, l.tacText] :=
        h.subset List.mem_cons_self
      simp only [List.mem_cons, List.not_mem_nil, or_false] at hmem
      rcases hmem with h | h | h
      · exact hstate h.symm
      · exact hplmn h.symm
      · exact htac h.symm
    · -- at most one field is left there
      have hlen := h.length_le
      cases hcar : l.carrier <;> simp [hcar, Carrier.pcellFields] at hlen
  rw [ServingCell.fields, List.tail_cons, infix_dropLast_append_cons hband, ← List.map_dropLast,
    List.infix_map_iff]
  constructor
  · rintro (h | ⟨zs, hzs, hmap⟩)
    · exact absurd h hfront
    · rcases zs with _ | ⟨a, _ | ⟨b, _ | ⟨c, zs⟩⟩⟩ <;> simp at hmap
      rwa [signed_eq_zero_iff.mp hmap.1.symm, signed_eq_zero_iff.mp hmap.2.symm] at hzs
  · intro h
    exact Or.inr ⟨[0, 0], h, rfl⟩

/-- No field is printed as eight zeros. -/
theorem ServingCell.no_eight_zeros (l : ServingCell) :
    ¬ [List.replicate 8 48] <:+: l.fields.tail.dropLast := by
  intro h
  obtain ⟨hstate, hplmn, htac, hcell⟩ := l.front_ne_zeros 7
  have hmem : List.replicate 8 48 ∈ l.fields.tail :=
    List.dropLast_subset _ (h.subset List.mem_cons_self)
  rw [ServingCell.fields, List.tail_cons, List.mem_append, List.mem_cons] at hmem
  rcases hmem with hmem | hmem | hmem
  · simp only [ServingCell.front, List.mem_cons] at hmem
    rcases hmem with h | h | h | h | h
    · exact hstate h.symm
    · exact hplmn h.symm
    · exact htac h.symm
    · exact hcell h.symm
    · cases hcar : l.carrier with
      | lte pcell band =>
          rw [hcar] at h
          exact signed_ne_zeros pcell 6 (List.mem_singleton.mp h).symm
      | gsm arfcn name band =>
          rw [hcar] at h
          exact absurd h (by simp [Carrier.pcellFields])
  · exact bandField_ne_zeros l.carrier 8 hmem.symm
  · obtain ⟨z, -, hz⟩ := List.mem_map.mp hmem
    exact signed_ne_zeros z 6 hz

/-! ### The filter -/

theorem contains_eq_false_iff {s pattern : Bytes} :
    contains s pattern = false ↔ ¬ pattern <:+: s := by
  rw [contains, ← strstr_isSome_iff, Bool.not_eq_true]

/-- The filter in terms of what occurs in the text. -/
theorem cpsi_se_ve_valido_iff (s : Bytes) : cpsi_se_ve_valido s = true ↔
    s ≠ [] ∧ ¬ ascii "NO SERVICE" <:+: s ∧ ¬ ascii "000-00" <:+: s ∧ ¬ ascii "BAND0" <:+: s ∧
      ¬ ascii ",0,0," <:+: s ∧ ¬ ascii ",00000000," <:+: s := by
  simp [cpsi_se_ve_valido, contains_eq_false_iff, and_assoc]

/-- What passes the filter also passes it cut. -/
theorem cpsi_se_ve_valido_take {s : Bytes} (h : cpsi_se_ve_valido s = true) (n : ℕ) :
    cpsi_se_ve_valido (s.take (n + 1)) = true := by
  rw [cpsi_se_ve_valido_iff] at h ⊢
  obtain ⟨hne, h₁, h₂, h₃, h₄, h₅⟩ := h
  have hcut : ∀ {pattern : Bytes}, ¬ pattern <:+: s → ¬ pattern <:+: s.take (n + 1) :=
    fun hno hin => hno (hin.trans (List.take_prefix _ _).isInfix)
  exact ⟨by simpa using hne, hcut h₁, hcut h₂, hcut h₃, hcut h₄, hcut h₅⟩

/-- The report of a serving cell passes the filter unless two adjacent radio fields are zero
and another field follows. -/
theorem ServingCell.valid_iff (l : ServingCell) :
    cpsi_se_ve_valido l.text = true ↔ ¬ [0, 0] <:+: l.radio.dropLast := by
  have hfields : l.fields ≠ [] := by simp [ServingCell.fields]
  have hcomma : ∀ field ∈ l.fields, ch ',' ∉ field := fun field hf => (l.harmless field hf).comma
  have hone : ∀ {pattern : Bytes}, ch ',' ∉ pattern → (∀ field, Harmless field →
      ¬ pattern <:+: field) → ¬ pattern <:+: l.text := by
    intro pattern hpat hno hin
    obtain ⟨field, hmem, hfield⟩ := (infix_intercalate hpat hfields).mp hin
    exact hno field (l.harmless field hmem) hfield
  have hnulls : ascii ",0,0," <:+: l.text ↔ [0, 0] <:+: l.radio.dropLast := by
    rw [← l.nulls_iff]
    exact enclosed_infix_iff [[48], [48]] hfields hcomma (by simp) (by simp; decide)
  have height : ¬ ascii ",00000000," <:+: l.text := by
    intro hin
    refine l.no_eight_zeros ?_
    exact (enclosed_infix_iff [List.replicate 8 48] hfields hcomma (by simp)
      (by simp; decide)).mp hin
  have hne : l.text ≠ [] := by
    intro hnil
    have hhead : l.text.head? = some 43 := by
      rw [ServingCell.text, ServingCell.fields, List.intercalate_cons_of_ne_nil (by simp)]
      rfl
    simp [hnil] at hhead
  rw [cpsi_se_ve_valido_iff, hnulls]
  constructor
  · exact fun h => h.2.2.2.2.1
  · intro h
    exact ⟨hne, hone (by decide) fun _ hf => hf.service, hone (by decide) fun _ hf => hf.plmn,
      hone (by decide) fun _ hf => hf.band, h, height⟩

/-- The attempts end, with the text, at one of those up to the one that is answered with the
line. -/
def Taken (line : Bytes) : Prop :=
  ∀ (modem : ℕ → AtAnswer) (out_len intentos i : ℕ), i < intentos → (modem i).err = ESP_OK →
    (modem i).text.bytes = line → ∃ j ≤ i, (∀ k < j, passes modem k = false) ∧
      cpsi_con_reintentos modem out_len intentos
        = (ESP_OK, strlcpy (strlcpy (modem j).text.bytes 256) out_len)

theorem taken_of_valid {line : Bytes} (h : cpsi_se_ve_valido line = true) : Taken line := by
  intro modem out_len intentos i hi herr htext
  have hpass : passes modem i = true := by
    rw [passes, herr, htext]
    simpa [strlcpy] using cpsi_se_ve_valido_take h 254
  obtain ⟨j, hj⟩ : ∃ j, (List.range' 0 intentos).find? (passes modem) = some j := by
    rw [← Option.isSome_iff_exists, List.find?_isSome]
    exact ⟨i, by simpa using hi, hpass⟩
  refine ⟨j, ?_, ?_, cpsiLoop_some hj⟩
  · rw [List.find?_range'_eq_some] at hj
    by_contra hlt
    simpa [hpass] using hj.2.2 i (Nat.zero_le i) (by omega)
  · intro k hk
    rw [List.find?_range'_eq_some] at hj
    simpa using hj.2.2 k (Nat.zero_le k) hk

/-- **What the filter lets pass.** The report of a serving cell is accepted, and ends the
attempts when it is answered, exactly when no two adjacent radio fields are zero with
another field behind them. -/
theorem serving_cell_passes_iff (l : ServingCell) :
    (cpsi_se_ve_valido l.text = true ∧ Taken l.text) ↔ ¬ [0, 0] <:+: l.radio.dropLast := by
  rw [← l.valid_iff]
  exact ⟨fun h => h.1, fun h => ⟨h, taken_of_valid h⟩⟩

theorem isName_lte : IsName (ascii "LTE") := by
  simp [IsName, ascii]
  decide

theorem isName_online : IsName (ascii "Online") := by
  simp [IsName, ascii]
  decide

theorem lte_in_service : ¬ ascii "NO SERVICE" <:+: ascii "LTE" := by decide

theorem online_in_service : ¬ ascii "NO SERVICE" <:+: ascii "Online" := by decide

/-- `+CPSI: LTE,Online,334-20,0x232,43790378,55,EUTRAN-BAND5,2500,0,0,-94,-850,-545,15`: a
channel of 1.4 MHz, for which both bandwidths are given as 0. -/
def narrowCell : ServingCell where
  mode := ascii "LTE"
  state := ascii "Online"
  mcc := 334
  mnc := 20
  tac := 0x232
  cell_id := 43790378
  mccText := ascii "334"
  mncText := ascii "20"
  tacText := ascii "0x232"
  cellText := ascii "43790378"
  carrier := .lte 55 5
  radio := [2500, 0, 0, -94, -850, -545, 15]
  mode_name := isName_lte
  mode_service := lte_in_service
  state_name := isName_online
  state_service := online_in_service
  mcc_range := by decide
  tac_ne := by decide
  cell_ne := by decide
  mcc_text := by decide
  mnc_text := by decide
  tac_text := Or.inr ⟨120, ascii "232", rfl, Or.inl rfl, by decide, by decide, by decide⟩
  cell_text := Or.inl ⟨by decide, Or.inr (by decide)⟩
  carrier_named := trivial
  band_ne := by decide

/-- A cell in service is turned away at every attempt. -/
theorem narrow_cell_turned_away :
    narrowCell.text
        = ascii "+CPSI: LTE,Online,334-20,0x232,43790378,55,EUTRAN-BAND5,2500,0,0,-94,-850,-545,15" ∧
      cpsi_se_ve_valido narrowCell.text = false ∧
      cpsi_con_reintentos (fun _ => ⟨ESP_OK, CStr.of narrowCell.text⟩) 128 3
        = (ESP_FAIL, narrowCell.text) := by
  decide +kernel

end PppAmb
