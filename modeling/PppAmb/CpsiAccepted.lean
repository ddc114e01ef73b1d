import PppAmb.Cpsi

/-!
# What an Accepted Cell Report Says

The text of `AT+CPSI?` passes a filter twice, is cut to 127 bytes, split by `strtok_r` and
read by `atoi` and `strtoul`. This module compares what ends up in `s_ue_info` with what
the text says, field by field.

## Main results

* `parse_cpsi_line_eq_some_iff`: what the parser makes of the tokens.
* `accepted_described_iff`: an accepted text says what `s_ue_info` then holds, exactly when
  its first five fields are there, none of them is empty or cut off, and the last two are
  numbers other than zero that `strtoul` reads at their face value.
* `short_line_accepted`: a text with three fields is accepted, with zero as its cell.
-/

namespace PppAmb

/-! ### What a text says -/

/-- The comma-separated fields behind `+CPSI:`, empty ones included. -/
def cpsiFields (text : Bytes) : List Bytes :=
  (afterPrefix text).splitOn (ch ',')

/-- The field `<MCC>-<MNC>`. -/
def plmn (field : Bytes) : Option (ℕ × ℕ) := do
  let (mcc, mnc) ← cutAt (ch '-') (trim_ws field)
  pure (← decimal (trim_ws mcc), ← decimal (trim_ws mnc))

/-- The text has five fields, of which the third is `<mcc>-<mnc>` and the fourth and the
fifth are the given numbers. -/
def Describes (text : Bytes) (mcc mnc tac cell_id : ℕ) : Prop :=
  ∃ f₀ f₁ f₂ f₃ f₄ rest, cpsiFields text = f₀ :: f₁ :: f₂ :: f₃ :: f₄ :: rest ∧
    plmn f₂ = some (mcc, mnc) ∧ numeral (trim_ws f₃) = some tac ∧
    numeral (trim_ws f₄) = some cell_id

/-- The text says what the record holds, and the record is in its ranges. -/
def Means (text : Bytes) (info : ModemUeInfo) : Prop :=
  ∃ mcc mnc : ℕ, Describes text mcc mnc info.tac info.cell_id ∧ info.mcc = mcc ∧
    info.mnc = mnc ∧ 100 ≤ mcc ∧ mcc ≤ 999 ∧ mnc ≤ 999 ∧ info.tac ≠ 0 ∧ info.cell_id ≠ 0

/-! ### What the parser makes of it -/

/-- The tokens the parser works on. -/
def cpsiToks (line : Bytes) : List Bytes :=
  strtok_r (ch ',') (afterPrefix line)

/-- The number read from a token, or zero if the token is missing. -/
def numberAt (i : ℕ) (toks : List Bytes) : ℕ :=
  ((toks[i]?).map fun tok => strtoul (trim_ws tok)).getD 0

/-- The third token has a dash between two numbers in the ranges the parser asks for. -/
def PlmnRead (toks : List Bytes) (mcc mnc : Int) : Prop :=
  ∃ tok a b, toks[2]? = some tok ∧ cutAt (ch '-') (trim_ws tok) = some (a, b) ∧
    atoi (trim_ws a) = mcc ∧ atoi (trim_ws b) = mnc ∧ 100 ≤ mcc ∧ mcc ≤ 999 ∧ 0 ≤ mnc ∧ mnc ≤ 999

section Tokens

variable {toks : List Bytes} {tok a b : Bytes}

theorem cpsiTokens_short (h : toks[2]? = none) :
    cpsiTokens 0 toks ⟨0, 0, 0, 0, false⟩ = some ⟨0, 0, 0, 0, false⟩ := by
  rcases toks with _ | ⟨g₀, _ | ⟨g₁, _ | ⟨g₂, toks⟩⟩⟩ <;> simp_all [cpsiTokens]

theorem cpsiTokens_no_dash (htok : toks[2]? = some tok)
    (hdash : cutAt (ch '-') (trim_ws tok) = none) :
    cpsiTokens 0 toks ⟨0, 0, 0, 0, false⟩ = none := by
  rcases toks with _ | ⟨g₀, _ | ⟨g₁, _ | ⟨g₂, toks⟩⟩⟩ <;> simp_all [cpsiTokens]

theorem cpsiTokens_dash (htok : toks[2]? = some tok)
    (hdash : cutAt (ch '-') (trim_ws tok) = some (a, b)) :
    cpsiTokens 0 toks ⟨0, 0, 0, 0, false⟩ =
      some ⟨atoi (trim_ws a), atoi (trim_ws b), numberAt 3 toks, numberAt 4 toks, false⟩ := by
  rcases toks with _ | ⟨g₀, _ | ⟨g₁, _ | ⟨g₂, _ | ⟨g₃, _ | ⟨g₄, toks⟩⟩⟩⟩⟩ <;>
    simp_all [cpsiTokens, numberAt]

end Tokens

/-- A line that is not cut is rejected, or read token by token. -/
theorem parse_cpsi_line_eq_some_iff {line : Bytes} (hlen : line.length ≤ 255)
    {info : ModemUeInfo} :
    parse_cpsi_line line = some info ↔ PlmnRead (cpsiToks line) info.mcc info.mnc ∧
      info.tac = numberAt 3 (cpsiToks line) ∧ info.cell_id = numberAt 4 (cpsiToks line) ∧
      info.valid = true := by
  have hcut : strlcpy line 256 = line := List.take_of_length_le hlen
  rw [parse_cpsi_line]
  simp only [hcut]
  rw [show strtok_r (ch ',') (afterPrefix line) = cpsiToks line from rfl]
  cases htok : (cpsiToks line)[2]? with
  | none =>
      rw [cpsiTokens_short htok]
      simp [PlmnRead, htok]
  | some tok =>
      cases hdash : cutAt (ch '-') (trim_ws tok) with
      | none =>
          rw [cpsiTokens_no_dash htok hdash]
          simp [PlmnRead, htok, hdash]
      | some p =>
          obtain ⟨a, b⟩ := p
          rw [cpsiTokens_dash htok hdash]
          dsimp only
          constructor
          · intro h
            split at h
            · exact absurd h (by simp)
            · split at h
              · exact absurd h (by simp)
              · obtain rfl := Option.some.inj h
                exact ⟨⟨tok, a, b, htok, hdash, rfl, rfl, by dsimp only; omega⟩, rfl, rfl, rfl⟩
          · rintro ⟨⟨tok', a', b', htok', hdash', hmcc, hmnc, hrange⟩, htac, hcell, hvalid⟩
            obtain rfl : tok = tok' := Option.some.inj (htok.symm.trans htok')
            obtain ⟨rfl, rfl⟩ := Prod.mk.inj (Option.some.inj (hdash.symm.trans hdash'))
            rw [hmcc, hmnc, if_neg (by omega), if_neg (by omega), ← htac, ← hcell, ← hvalid]

/-! ### The attempts -/

/-- An attempt that is answered, with a text that passes the filter. -/
def passes (modem : ℕ → AtAnswer) (i : ℕ) : Bool :=
  (modem i).err = ESP_OK ∧ cpsi_se_ve_valido (strlcpy (modem i).text.bytes 256)

/-- The text of the first of the three attempts that passes. -/
def chosen (modem : ℕ → AtAnswer) : Option Bytes :=
  ((List.range' 0 3).find? (passes modem)).map fun i => (modem i).text.bytes

/-- The loop ends at the first attempt that passes. -/
theorem cpsiLoop_some {modem : ℕ → AtAnswer} {out_len n i j : ℕ} {last : EspErr} {out : Bytes}
    (h : (List.range' i n).find? (passes modem) = some j) :
    cpsiLoop modem out_len n i last out
      = (ESP_OK, strlcpy (strlcpy (modem j).text.bytes 256) out_len) := by
  induction n generalizing i last out with
  | zero => simp at h
  | succ n ih =>
      rw [List.range'_succ, List.find?_cons] at h
      rw [cpsiLoop]
      cases hpass : passes modem i with
      | true =>
          rw [hpass, Option.some.injEq] at h
          subst h
          rw [if_pos (of_decide_eq_true hpass)]
      | false =>
          rw [hpass] at h
          simp only [of_decide_eq_false hpass, if_false]
          exact ih h

theorem cpsiLoop_none {modem : ℕ → AtAnswer} {n i : ℕ} {last : EspErr} {out : Bytes}
    (h : (List.range' i n).find? (passes modem) = none) :
    (cpsiLoop modem 128 n i last out).1 ≠ ESP_OK := by
  induction n generalizing i last out with
  | zero =>
      simp only [cpsiLoop]
      by_cases hlast : last = ESP_OK
      · rw [if_pos hlast]
        decide
      · rwa [if_neg hlast]
  | succ n ih =>
      rw [List.range'_succ, List.find?_cons] at h
      rw [cpsiLoop]
      cases hpass : passes modem i with
      | true => simp [hpass] at h
      | false =>
          rw [hpass] at h
          simp only [of_decide_eq_false hpass, if_false]
          exact ih h

/-- The record after the step is valid exactly when a text was chosen whose first 127 bytes
pass the filter again and are parsed. -/
theorem cpsiStep_valid_iff {modem : ℕ → AtAnswer} {s : UeState} {info : ModemUeInfo} :
    cpsiStep modem s = ⟨info, true⟩ ↔ ∃ text, chosen modem = some text ∧
      cpsi_se_ve_valido (text.take 127) = true ∧ parse_cpsi_line (text.take 127) = some info := by
  cases hch : chosen modem with
  | none =>
      have hfail : (cpsi_con_reintentos modem 128 3).1 ≠ ESP_OK :=
        cpsiLoop_none (Option.map_eq_none_iff.mp hch)
      simp only [cpsiStep, hfail, if_false]
      simp
  | some text =>
      obtain ⟨j, hj, htext⟩ := Option.map_eq_some_iff.mp hch
      have hok : cpsi_con_reintentos modem 128 3 = (ESP_OK, text.take 127) := by
        rw [cpsi_con_reintentos, cpsiLoop_some hj, htext, strlcpy, strlcpy, List.take_take]
        rfl
      simp only [cpsiStep, hok, if_true, Option.some.injEq, exists_eq_left']
      cases hparse : parse_cpsi_line (text.take 127) with
      | none => simp
      | some info' =>
          cases hvalid : cpsi_se_ve_valido (text.take 127) <;> simp

/-! ### The fields of the first 127 bytes -/

/-- The text has a `+CPSI:`, but not within its first 127 bytes. -/
def LatePrefix (text : Bytes) : Prop :=
  strstr (ascii "+CPSI:") (text.take 127) = none ∧ strstr (ascii "+CPSI:") text ≠ none

theorem afterPrefix_take {text : Bytes} (h : ¬ LatePrefix text) :
    afterPrefix (text.take 127) <+: afterPrefix text := by
  cases hcut : strstr (ascii "+CPSI:") (text.take 127) with
  | none =>
      have hwhole : strstr (ascii "+CPSI:") text = none := by
        by_contra hsome
        exact h ⟨hcut, hsome⟩
      simp only [afterPrefix, hcut, hwhole]
      exact List.take_prefix 127 text
  | some r =>
      have hwhole := strstr_append hcut (text.drop 127)
      rw [List.take_append_drop] at hwhole
      simp only [afterPrefix, hcut, hwhole]
      rw [List.drop_append]
      exact List.prefix_append _ _

/-- Trimming the beginning of a field. -/
theorem trim_ws_mono {x y : Bytes} (h : x <+: y) : trim_ws x <+: trim_ws y :=
  rdropWhile_prefix_mono isspace (dropWhile_prefix_mono isspace h)

/-- Cutting off the end of a numeral's field changes the number that is read. -/
theorem trim_ws_eq_of_strtoul {x f : Bytes} {v : ℕ} (h : numeral (trim_ws f) = some v) (hv : v ≠ 0)
    (hx : x <+: f) (hread : strtoul (trim_ws x) = v) : trim_ws x = trim_ws f := by
  by_contra hne
  exact strtoul_prefix_ne h hv (trim_ws_mono hx) hne hread

/-- There is no dash in a numeral's field, not even if it is cut. -/
theorem cutAt_numeral {x f : Bytes} {v : ℕ} (h : numeral (trim_ws f) = some v) (hx : x <+: f) :
    cutAt (ch '-') (trim_ws x) = none :=
  cutAt_eq_none fun hmem => dash_not_mem_numeral h ((trim_ws_mono hx).subset hmem)

theorem ne_nil_of_numeral {f : Bytes} {v : ℕ} (h : numeral (trim_ws f) = some v) : f ≠ [] := by
  rintro rfl
  exact numeral_ne_nil h rfl

theorem ne_nil_of_plmn {f : Bytes} {p : ℕ × ℕ} (h : plmn f = some p) : f ≠ [] := by
  rintro rfl
  simp [plmn, trim_ws, cutAt] at h

/-! ### The condition -/

/-- The field is a number other than zero that `strtoul` reads at its face value: it is
below `2 ^ 32`, and it is not taken for an octal number. -/
def FaceValue (field : Bytes) : Prop :=
  ∃ v, numeral (trim_ws field) = some v ∧ v ≠ 0 ∧ strtoul (trim_ws field) = v

/-- The first five fields of the text are not empty, the third is `<MCC>-<MNC>`, the fourth
and the fifth are read at face value, and the cut after 127 bytes leaves the fifth as it
is, up to white space. -/
def InReach (text : Bytes) : Prop :=
  ∃ f₀ f₁ f₂ f₃ f₄ rest, cpsiFields text = f₀ :: f₁ :: f₂ :: f₃ :: f₄ :: rest ∧
    f₀ ≠ [] ∧ f₁ ≠ [] ∧ (plmn f₂).isSome ∧ FaceValue f₃ ∧ FaceValue f₄ ∧
    ∃ g, (cpsiFields (text.take 127))[4]? = some g ∧ trim_ws g = trim_ws f₄

/-- The text has its `+CPSI:` beyond byte 127, and the numbers that stand in its first 127
bytes happen to be those behind it. -/
def SameByChance (text : Bytes) : Prop :=
  ∃ mcc mnc : ℕ, PlmnRead (cpsiToks (text.take 127)) mcc mnc ∧
    Describes text mcc mnc (numberAt 3 (cpsiToks (text.take 127)))
      (numberAt 4 (cpsiToks (text.take 127))) ∧
    numberAt 3 (cpsiToks (text.take 127)) ≠ 0 ∧ numberAt 4 (cpsiToks (text.take 127)) ≠ 0

/-- The condition on a text that passes the filter: its first 127 bytes fail the filter, or
their third token is not `<MCC>-<MNC>` in range, or the text is in reach of the parser. -/
def ReadRight (text : Bytes) : Prop :=
  cpsi_se_ve_valido (text.take 127) = false ∨
    (∀ mcc mnc, ¬ PlmnRead (cpsiToks (text.take 127)) mcc mnc) ∨
    (¬ LatePrefix text ∧ InReach text) ∨ (LatePrefix text ∧ SameByChance text)

/-! ### The comparison -/

section Comparison

variable {text : Bytes} {info : ModemUeInfo}

theorem cpsiToks_eq (line : Bytes) :
    cpsiToks line = (cpsiFields line).filter fun field => field ≠ [] := rfl

/-- The numbers of the third field, when `atoi` finds them in range. -/
theorem plmn_read {f a b : Bytes} {p : ℕ × ℕ} (h : plmn f = some p)
    (hcut : cutAt (ch '-') (trim_ws f) = some (a, b)) (hmcc : atoi (trim_ws a) ≤ 999)
    (hmnc : atoi (trim_ws b) ≤ 999) : atoi (trim_ws a) = p.1 ∧ atoi (trim_ws b) = p.2 := by
  simp only [plmn, hcut, Option.bind_eq_bind, Option.bind_some, Option.bind_eq_some_iff,
    Option.pure_def, Option.some.injEq] at h
  obtain ⟨m, hm, n, hn, rfl⟩ := h
  rw [atoi_decimal hm] at hmcc ⊢
  rw [atoi_decimal hn] at hmnc ⊢
  omega

/-- The fields of the first 127 bytes are fields of the text, the last one cut. -/
theorem cpsiFields_take (h : ¬ LatePrefix text) :
    ∃ fields x y rest, cpsiFields (text.take 127) = fields ++ [x] ∧
      cpsiFields text = fields ++ y :: rest ∧ x <+: y :=
  splitOn_of_isPrefix (ch ',') (afterPrefix_take h)

/-- If the cut has a fifth field, the four before it are those of the text. -/
theorem cpsiFields_take_five (h : ¬ LatePrefix text) {f₀ f₁ f₂ f₃ f₄ : Bytes} {rest : List Bytes}
    (hfields : cpsiFields text = f₀ :: f₁ :: f₂ :: f₃ :: f₄ :: rest)
    (hlen : 5 ≤ (cpsiFields (text.take 127)).length) :
    ∃ g rest', cpsiFields (text.take 127) = f₀ :: f₁ :: f₂ :: f₃ :: g :: rest' ∧ g <+: f₄ ∧
      (rest' = [] ∨ g = f₄) := by
  obtain ⟨fields, x, y, rest', hcut, hwhole, hxy⟩ := cpsiFields_take h
  rw [hfields] at hwhole
  rw [hcut] at hlen ⊢
  rcases fields with _ | ⟨a₀, _ | ⟨a₁, _ | ⟨a₂, _ | ⟨a₃, _ | ⟨a₄, fields⟩⟩⟩⟩⟩
  · simp at hlen
  · simp at hlen
  · simp at hlen
  · simp at hlen
  · simp only [List.cons_append, List.nil_append, List.cons.injEq] at hwhole
    obtain ⟨rfl, rfl, rfl, rfl, rfl, -⟩ := hwhole
    exact ⟨x, [], rfl, hxy, Or.inl rfl⟩
  · simp only [List.cons_append, List.cons.injEq] at hwhole
    obtain ⟨rfl, rfl, rfl, rfl, rfl, -⟩ := hwhole
    exact ⟨f₄, fields ++ [x], rfl, List.prefix_rfl, Or.inr rfl⟩

/-- A text in reach is read right. -/
theorem means_of_inReach (hlate : ¬ LatePrefix text) (hreach : InReach text)
    (hplmn : PlmnRead (cpsiToks (text.take 127)) info.mcc info.mnc)
    (htac : info.tac = numberAt 3 (cpsiToks (text.take 127)))
    (hcell : info.cell_id = numberAt 4 (cpsiToks (text.take 127))) : Means text info := by
  obtain ⟨f₀, f₁, f₂, f₃, f₄, rest, hfields, h₀, h₁, h₂, h₃, h₄, g, hg, htrim⟩ := hreach
  obtain ⟨v₃, hv₃, hne₃, hread₃⟩ := h₃
  obtain ⟨v₄, hv₄, hne₄, hread₄⟩ := h₄
  obtain ⟨p, hp⟩ := Option.isSome_iff_exists.mp h₂
  have hlen : 5 ≤ (cpsiFields (text.take 127)).length := by
    have := (List.getElem?_eq_some_iff.mp hg).1
    omega
  obtain ⟨g', rest', hcut, -⟩ := cpsiFields_take_five hlate hfields hlen
  obtain rfl : g' = g := by simpa [hcut] using hg
  have hg₀ : g' ≠ [] := ne_nil_of_numeral (by rw [htrim]; exact hv₄)
  have htoks : cpsiToks (text.take 127)
      = f₀ :: f₁ :: f₂ :: f₃ :: g' :: rest'.filter fun field => field ≠ [] := by
    rw [cpsiToks_eq, hcut]
    simp [h₀, h₁, ne_nil_of_plmn hp, ne_nil_of_numeral hv₃, hg₀]
  rw [htoks] at hplmn htac hcell
  obtain ⟨tok, a, b, htok, hdash, ha, hb, hlo, hhi, hlo', hhi'⟩ := hplmn
  obtain rfl : f₂ = tok := by simpa using htok
  obtain ⟨hmcc, hmnc⟩ := plmn_read hp hdash (by omega) (by omega)
  have htac' : info.tac = v₃ := by simpa [numberAt, hread₃] using htac
  have hcell' : info.cell_id = v₄ := by simpa [numberAt, htrim, hread₄] using hcell
  refine ⟨p.1, p.2, ⟨f₀, f₁, f₂, f₃, f₄, rest, hfields, hp, ?_, ?_⟩, by omega, by omega, by omega,
    by omega, by omega, by omega, by omega⟩
  · rw [htac', hv₃]
  · rw [hcell', hv₄]

/-- A text that is read right is in reach. -/
theorem inReach_of_means (hlate : ¬ LatePrefix text)
    (hplmn : PlmnRead (cpsiToks (text.take 127)) info.mcc info.mnc)
    (htac : info.tac = numberAt 3 (cpsiToks (text.take 127)))
    (hcell : info.cell_id = numberAt 4 (cpsiToks (text.take 127))) (h : Means text info) :
    InReach text := by
  obtain ⟨mcc, mnc, ⟨f₀, f₁, f₂, f₃, f₄, rest, hfields, hp, hv₃, hv₄⟩, -, -, -, -, -, hne₃, hne₄⟩ := h
  have hfive : 5 ≤ (cpsiToks (text.take 127)).length := by
    by_contra hshort
    rw [numberAt, List.getElem?_eq_none (by omega)] at hcell
    exact hne₄ hcell
  have hlen : 5 ≤ (cpsiFields (text.take 127)).length :=
    hfive.trans (List.length_filter_le _ _)
  obtain ⟨g, rest', hcut, hg, hend⟩ := cpsiFields_take_five hlate hfields hlen
  have hne₂ : f₂ ≠ [] := ne_nil_of_plmn hp
  have hne₃' : f₃ ≠ [] := ne_nil_of_numeral hv₃
  have hdash₃ := cutAt_numeral hv₃ List.prefix_rfl
  have hdash₄ := cutAt_numeral hv₄ hg
  obtain ⟨tok, a, b, htok, hdash, -⟩ := hplmn
  rw [cpsiToks_eq, hcut] at htok hfive htac hcell
  have hgne : g ≠ [] := by
    rintro rfl
    rcases hend with rfl | hf₄
    · have hle : 5 ≤ ([f₀, f₁, f₂, f₃].filter fun field => field ≠ []).length := by
        simpa [List.filter_cons] using hfive
      exact absurd (hle.trans (List.length_filter_le _ _)) (by simp)
    · exact ne_nil_of_numeral hv₄ hf₄.symm
  -- an empty field in front of the third makes a numeral the third token
  have hshift : ∀ f, tok = f → cutAt (ch '-') (trim_ws f) = none → False := by
    rintro f rfl hnone
    exact absurd (hnone.symm.trans hdash) (by simp)
  by_cases h₀ : f₀ = []
  · exfalso
    by_cases h₁ : f₁ = []
    · refine hshift g ?_ hdash₄
      simpa [h₀, h₁, hne₂, hne₃', hgne] using htok.symm
    · refine hshift f₃ ?_ hdash₃
      simpa [h₀, h₁, hne₂, hne₃'] using htok.symm
  · by_cases h₁ : f₁ = []
    · exfalso
      refine hshift f₃ ?_ hdash₃
      simpa [h₀, h₁, hne₂, hne₃'] using htok.symm
    · have hread₃ : strtoul (trim_ws f₃) = info.tac := by
        simpa [numberAt, h₀, h₁, hne₂, hne₃', hgne] using htac.symm
      have hread₄ : strtoul (trim_ws g) = info.cell_id := by
        simpa [numberAt, h₀, h₁, hne₂, hne₃', hgne] using hcell.symm
      have htrim := trim_ws_eq_of_strtoul hv₄ hne₄ hg hread₄
      refine ⟨f₀, f₁, f₂, f₃, f₄, rest, hfields, h₀, h₁, by rw [hp]; rfl, ⟨_, hv₃, hne₃, hread₃⟩,
        ⟨_, hv₄, hne₄, by rw [← htrim]; exact hread₄⟩, g, ?_, htrim⟩
      rw [hcut]
      rfl

/-- **One text.** -/
theorem means_iff (hplmn : PlmnRead (cpsiToks (text.take 127)) info.mcc info.mnc)
    (htac : info.tac = numberAt 3 (cpsiToks (text.take 127)))
    (hcell : info.cell_id = numberAt 4 (cpsiToks (text.take 127))) :
    Means text info ↔
      (¬ LatePrefix text ∧ InReach text) ∨ (LatePrefix text ∧ SameByChance text) := by
  by_cases hlate : LatePrefix text
  · have hchance : Means text info ↔ SameByChance text := by
      rw [SameByChance, ← htac, ← hcell]
      constructor
      · rintro ⟨mcc, mnc, hdesc, hmcc, hmnc, -, -, -, hne₃, hne₄⟩
        rw [hmcc, hmnc] at hplmn
        exact ⟨mcc, mnc, hplmn, hdesc, hne₃, hne₄⟩
      · rintro ⟨mcc, mnc, hread, hdesc, hne₃, hne₄⟩
        obtain ⟨tok, a, b, htok, hdash, ha, hb, hrange⟩ := hread
        obtain ⟨tok', a', b', htok', hdash', ha', hb', -⟩ := hplmn
        obtain rfl : tok = tok' := Option.some.inj (htok.symm.trans htok')
        obtain ⟨rfl, rfl⟩ := Prod.mk.inj (Option.some.inj (hdash.symm.trans hdash'))
        exact ⟨mcc, mnc, hdesc, by omega, by omega, by omega, by omega, by omega, hne₃, hne₄⟩
    simp [hlate, hchance]
  · simp only [hlate, not_false_eq_true, true_and, false_and, or_false]
    exact ⟨inReach_of_means hlate hplmn htac hcell,
      fun h => means_of_inReach hlate h hplmn htac hcell⟩

end Comparison

/-- **What an accepted report says.** For every answer of the modem and every state before:
if the step ends with `s_ue_valid`, the text it was read from says what `s_ue_info` then
holds. This is so if and only if the chosen text, if there is one, is read right. -/
theorem accepted_described_iff (modem : ℕ → AtAnswer) (s : UeState) :
    ((cpsiStep modem s).s_ue_valid = true → ∃ text, chosen modem = some text ∧
      Means text (cpsiStep modem s).s_ue_info) ↔
      ∀ text, chosen modem = some text → ReadRight text := by
  have hshort : ∀ text : Bytes, (text.take 127).length ≤ 255 := by
    intro text
    rw [List.length_take]
    omega
  constructor
  · intro h text htext
    by_cases hvalid : cpsi_se_ve_valido (text.take 127) = false
    · exact Or.inl hvalid
    by_cases hplmn : ∀ mcc mnc, ¬ PlmnRead (cpsiToks (text.take 127)) mcc mnc
    · exact Or.inr (Or.inl hplmn)
    simp only [not_forall, not_not] at hplmn
    obtain ⟨mcc, mnc, hplmn⟩ := hplmn
    set info : ModemUeInfo := ⟨mcc, mnc, numberAt 3 (cpsiToks (text.take 127)),
      numberAt 4 (cpsiToks (text.take 127)), true⟩ with hinfo
    have hparse : parse_cpsi_line (text.take 127) = some info :=
      (parse_cpsi_line_eq_some_iff (hshort text)).mpr ⟨hplmn, rfl, rfl, rfl⟩
    have hstep : cpsiStep modem s = ⟨info, true⟩ :=
      cpsiStep_valid_iff.mpr ⟨text, htext, by simpa using hvalid, hparse⟩
    rw [hstep] at h
    obtain ⟨text', htext', hmeans⟩ := h rfl
    obtain rfl : text = text' := Option.some.inj (htext.symm.trans htext')
    exact Or.inr (Or.inr ((means_iff hplmn rfl rfl).mp hmeans))
  · intro h hvalid
    obtain ⟨text, htext, hfilter, hparse⟩ := cpsiStep_valid_iff.mp
      (show cpsiStep modem s = ⟨(cpsiStep modem s).s_ue_info, true⟩ by rw [← hvalid])
    obtain ⟨hplmn, htac, hcell, -⟩ := (parse_cpsi_line_eq_some_iff (hshort text)).mp hparse
    refine ⟨text, htext, (means_iff hplmn htac hcell).mpr ?_⟩
    rcases h text htext with hfail | hfail | hright
    · exact absurd (hfilter.symm.trans hfail) (by decide)
    · exact absurd hplmn (hfail _ _)
    · exact hright

/-- The modem answers with a line of three fields. -/
def shortLine : ℕ → AtAnswer :=
  fun _ => ⟨ESP_OK, .of (ascii "+CPSI: LTE,Online,334-20")⟩

/-- **A line of three fields is accepted**, and the cell it is taken for is zero. -/
theorem short_line_accepted :
    ¬ ∀ (modem : ℕ → AtAnswer) (s : UeState), (cpsiStep modem s).s_ue_valid = true →
      ∃ text, chosen modem = some text ∧ Means text (cpsiStep modem s).s_ue_info := by
  intro h
  have hstep : cpsiStep shortLine ⟨⟨0, 0, 0, 0, false⟩, false⟩ = ⟨⟨334, 20, 0, 0, true⟩, true⟩ := by
    rfl
  have hmeans := h shortLine ⟨⟨0, 0, 0, 0, false⟩, false⟩
  rw [hstep] at hmeans
  obtain ⟨text, -, mcc, mnc, -, -, -, -, -, -, hne, -⟩ := hmeans rfl
  exact hne rfl

end PppAmb
