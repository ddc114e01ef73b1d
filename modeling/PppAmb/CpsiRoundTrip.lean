import PppAmb.CpsiAccepted

/-!
# Reading Back a Cell Report

`parse_cpsi_line` over every line of the documented form: any preamble, any white space
around the fields, the numbers printed in any of the ways the modem may print them, and
anything behind them.

## Main results

* `parse_cpsi_line_cut`: only the first 255 bytes of a line count.
* `parse_cpsi_line_printed`: the numbers of the line are read back.
-/

namespace PppAmb

/-- Nothing but white space. -/
def IsBlank (s : Bytes) : Prop :=
  ∀ c ∈ s, isspace c = true

/-- A text with white space around it. -/
structure Padded where
  before : Bytes
  core : Bytes
  after : Bytes
  blankBefore : IsBlank before
  blankAfter : IsBlank after

def Padded.text (p : Padded) : Bytes :=
  p.before ++ p.core ++ p.after

/-- A line of the form `<preamble>+CPSI:<mode>,<state>,<mcc>-<mnc>,<tac>,<cell_id><suffix>`.
The white space around `mode` and `state` is part of them. -/
structure CpsiLine where
  preamble : Bytes
  mode : Bytes
  state : Bytes
  mcc : ℕ
  mnc : ℕ
  tac : ℕ
  cell_id : ℕ
  mccText : Padded
  mncText : Padded
  tacText : Padded
  cellBefore : Bytes
  cellText : Bytes
  suffix : Bytes
  first : strstr (ascii "+CPSI:") preamble = none
  mode_ne : mode ≠ []
  mode_comma : ch ',' ∉ mode
  state_ne : state ≠ []
  state_comma : ch ',' ∉ state
  mcc_range : 100 ≤ mcc ∧ mcc ≤ 999
  mnc_range : mnc ≤ 999
  tac_range : tac < 2 ^ 32
  cell_range : cell_id < 2 ^ 32
  mcc_text : decimal mccText.core = some mcc
  mnc_text : decimal mncText.core = some mnc
  tac_text : Prints tacText.core tac
  cell_text : Prints cellText cell_id
  cell_before : IsBlank cellBefore
  suffix_start : ∀ c ∈ suffix.head?, c = ch ',' ∨ isspace c = true

/-- The third field. -/
def CpsiLine.plmnField (l : CpsiLine) : Bytes :=
  l.mccText.text ++ ch '-' :: l.mncText.text

/-- The line up to the end of the cell id. -/
def CpsiLine.upToCell (l : CpsiLine) : Bytes :=
  l.preamble ++ (ascii "+CPSI:" ++ (l.mode ++ ch ',' :: (l.state ++ ch ',' :: (l.plmnField ++ ch ','
    :: (l.tacText.text ++ ch ',' :: (l.cellBefore ++ l.cellText))))))

/-- The whole line. -/
def CpsiLine.text (l : CpsiLine) : Bytes :=
  l.upToCell ++ l.suffix

/-- What is to be read from it. -/
def CpsiLine.info (l : CpsiLine) : ModemUeInfo :=
  ⟨l.mcc, l.mnc, l.tac, l.cell_id, true⟩

/-- Only the first 255 bytes of a line count. -/
theorem parse_cpsi_line_cut (line : Bytes) :
    parse_cpsi_line line = parse_cpsi_line (line.take 255) := by
  rw [parse_cpsi_line, parse_cpsi_line]
  simp only [strlcpy, List.take_take]
  rfl

/-! ### The fields -/

theorem Padded.trim_ws_text (p : Padded) (hplain : ∀ c ∈ p.core, isspace c = false) :
    trim_ws p.text = p.core :=
  trim_padded isspace p.blankBefore p.blankAfter
    (fun c hc => hplain c (List.mem_of_mem_head? hc))
    (fun c hc => hplain c (List.mem_of_mem_getLast? hc))

/-- A byte that is neither white space nor in the text is not in the padded text. -/
theorem Padded.not_mem_text (p : Padded) {b : UInt8} (hb : isspace b = false) (hcore : b ∉ p.core) :
    b ∉ p.text := by
  intro hmem
  rcases List.mem_append.mp hmem with hmem | hmem
  · rcases List.mem_append.mp hmem with hmem | hmem
    · simp [p.blankBefore b hmem] at hb
    · exact hcore hmem
  · simp [p.blankAfter b hmem] at hb

/-- The third field is split at its dash, whatever number follows it. -/
theorem CpsiLine.plmn_split (l : CpsiLine) (q : Padded) (hq : ∀ c ∈ q.core, isspace c = false) :
    ∃ a b, cutAt (ch '-') (trim_ws (l.mccText.text ++ ch '-' :: q.text)) = some (a, b) ∧
      atoi (trim_ws a) = l.mcc ∧ trim_ws b = q.core := by
  obtain ⟨hmcc, hmccDigits⟩ := decimal_digits l.mcc_text
  have hmccPlain : ∀ c ∈ l.mccText.core, isspace c = false :=
    fun c hc => (decimalDigit_plain (hmccDigits c hc)).1
  -- what is left in front of the dash when the white space at the start is gone
  set a : Padded := ⟨[], l.mccText.core, l.mccText.after, by simp [IsBlank], l.mccText.blankAfter⟩
    with ha
  have hdash : ch '-' ∉ a.text := by
    refine a.not_mem_text (by decide) fun hmem => ?_
    exact (decimalDigit_plain (hmccDigits _ hmem)).2.1 rfl
  have hread : atoi (trim_ws a.text) = l.mcc := by
    rw [a.trim_ws_text hmccPlain, atoi_decimal l.mcc_text]
    have hrange := l.mcc_range.2
    omega
  have hhead : ∀ t : Bytes, ∀ c ∈ (a.text ++ ch '-' :: t).head?, isspace c = false := by
    intro t c hc
    obtain ⟨x, xs, hx⟩ := List.exists_cons_of_ne_nil hmcc
    have hfirst : (a.text ++ ch '-' :: t).head? = l.mccText.core.head? := by
      simp [Padded.text, ha, hx]
    rw [hfirst] at hc
    exact hmccPlain c (List.mem_of_mem_head? hc)
  rcases List.eq_nil_or_concat q.core with hcore | ⟨u, d, hcore⟩
  · -- nothing but white space follows the dash
    have hfield : l.mccText.text ++ ch '-' :: q.text
        = l.mccText.before ++ (a.text ++ [ch '-']) ++ (q.before ++ q.after) := by
      simp [Padded.text, ha, hcore]
    have hblank : IsBlank (q.before ++ q.after) := fun c hc =>
      (List.mem_append.mp hc).elim (q.blankBefore c) (q.blankAfter c)
    have htrim : trim_ws (l.mccText.text ++ ch '-' :: q.text) = a.text ++ [ch '-'] := by
      rw [hfield]
      refine trim_padded isspace l.mccText.blankBefore hblank (hhead []) ?_
      intro c hc
      obtain rfl : ch '-' = c := by simpa using hc
      rfl
    exact ⟨a.text, [], by rw [htrim, cutAt_append hdash], hread, by rw [hcore]; rfl⟩
  · set b : Padded := ⟨q.before, q.core, [], q.blankBefore, by simp [IsBlank]⟩ with hb
    have hfield : l.mccText.text ++ ch '-' :: q.text
        = l.mccText.before ++ (a.text ++ ch '-' :: b.text) ++ q.after := by
      simp [Padded.text, ha, hb]
    have htrim : trim_ws (l.mccText.text ++ ch '-' :: q.text) = a.text ++ ch '-' :: b.text := by
      rw [hfield]
      refine trim_padded isspace l.mccText.blankBefore q.blankAfter (hhead b.text) ?_
      intro c hc
      have hlast : (a.text ++ ch '-' :: b.text).getLast? = q.core.getLast? := by
        have hbtext : b.text = q.before ++ q.core := by simp [Padded.text, hb]
        rw [hbtext, ← List.cons_append, ← List.append_assoc,
          List.getLast?_append_of_ne_nil _ (by simp [hcore])]
      rw [hlast] at hc
      exact hq c (List.mem_of_mem_getLast? hc)
    exact ⟨a.text, b.text, by rw [htrim, cutAt_append hdash], hread, b.trim_ws_text hq⟩

theorem CpsiLine.mnc_plain (l : CpsiLine) : ∀ c ∈ l.mncText.core, isspace c = false :=
  fun c hc => (decimalDigit_plain ((decimal_digits l.mnc_text).2 c hc)).1

/-- The third field is split at its dash and read by `atoi`. -/
theorem CpsiLine.plmn_read (l : CpsiLine) :
    ∃ a b, cutAt (ch '-') (trim_ws l.plmnField) = some (a, b) ∧ atoi (trim_ws a) = l.mcc ∧
      atoi (trim_ws b) = l.mnc := by
  obtain ⟨a, b, hcut, hmcc, hmnc⟩ := l.plmn_split l.mncText l.mnc_plain
  refine ⟨a, b, hcut, hmcc, ?_⟩
  rw [hmnc, atoi_decimal l.mnc_text]
  have hrange := l.mnc_range
  omega

/-- The cell id is read from its field, whatever follows it there. -/
theorem CpsiLine.cell_read (l : CpsiLine) {rest : Bytes}
    (hrest : ∀ c ∈ rest.head?, isspace c = true) :
    strtoul (trim_ws (l.cellBefore ++ l.cellText ++ rest)) = l.cell_id := by
  obtain ⟨hne, hplain⟩ := prints_plain l.cell_text
  have hfront : (l.cellBefore ++ l.cellText ++ rest).dropWhile isspace = l.cellText ++ rest := by
    obtain ⟨x, xs, hx⟩ := List.exists_cons_of_ne_nil hne
    have hspace : isspace x = false := (hplain x (by simp [hx])).1
    rw [List.append_assoc, List.dropWhile_append_of_pos l.cell_before, hx, List.cons_append,
      List.dropWhile_cons_of_neg (by simp [hspace])]
  have hself : l.cellText.rdropWhile isspace = l.cellText := by
    rw [List.rdropWhile_eq_self_iff]
    intro hne'
    simp [(hplain _ (List.getLast_mem hne')).1]
  have hmono : l.cellText.rdropWhile isspace <+: (l.cellText ++ rest).rdropWhile isspace :=
    rdropWhile_prefix_mono isspace (List.prefix_append _ _)
  rw [hself] at hmono
  obtain ⟨t, ht⟩ := hmono
  have hpre : l.cellText ++ t <+: l.cellText ++ rest := by
    rw [ht]
    exact List.rdropWhile_prefix isspace _
  rw [List.prefix_append_right_inj] at hpre
  rw [trim_ws, hfront, ← ht]
  refine strtoul_prints l.cell_text l.cell_range fun c hc => hrest c ?_
  obtain ⟨u, rfl⟩ := hpre
  rcases t with _ | ⟨x, t⟩
  · simp at hc
  · simpa using hc

/-! ### The line -/

/-- What stands behind the first `+CPSI:`. -/
theorem CpsiLine.afterPrefix_eq (l : CpsiLine) (suffix : Bytes) :
    afterPrefix (l.upToCell ++ suffix) = l.mode ++ ch ',' :: (l.state ++ ch ','
      :: (l.plmnField ++ ch ',' :: (l.tacText.text ++ ch ','
      :: (l.cellBefore ++ l.cellText ++ suffix)))) := by
  have hfirst := @strstr_first (ch '+') (ascii "CPSI:") _ (by decide) l.first
    (l.mode ++ ch ',' :: (l.state ++ ch ',' :: (l.plmnField ++ ch ',' :: (l.tacText.text ++ ch ','
      :: (l.cellBefore ++ l.cellText ++ suffix)))))
  have hline : l.upToCell ++ suffix = l.preamble ++ ((ch '+' :: ascii "CPSI:") ++ (l.mode ++ ch ','
      :: (l.state ++ ch ',' :: (l.plmnField ++ ch ',' :: (l.tacText.text ++ ch ','
      :: (l.cellBefore ++ l.cellText ++ suffix)))))) := by
    simp [CpsiLine.upToCell, show ascii "+CPSI:" = ch '+' :: ascii "CPSI:" from rfl]
  rw [hline, afterPrefix, show ascii "+CPSI:" = ch '+' :: ascii "CPSI:" from rfl, hfirst]
  rfl

theorem isspace_comma : isspace (ch ',') = false := rfl

theorem CpsiLine.comma_not_mem_plmn (l : CpsiLine) : ch ',' ∉ l.plmnField := by
  obtain ⟨-, hmccDigits⟩ := decimal_digits l.mcc_text
  obtain ⟨-, hmncDigits⟩ := decimal_digits l.mnc_text
  intro hmem
  rcases List.mem_append.mp hmem with hmem | hmem
  · exact l.mccText.not_mem_text isspace_comma
      (fun hin => absurd (hmccDigits _ hin) (by decide)) hmem
  · rcases List.mem_cons.mp hmem with hdash | hmem
    · exact absurd hdash (by decide)
    · exact l.mncText.not_mem_text isspace_comma
        (fun hin => absurd (hmncDigits _ hin) (by decide)) hmem

theorem CpsiLine.comma_not_mem_cell (l : CpsiLine) : ch ',' ∉ l.cellBefore ++ l.cellText := by
  intro hmem
  rcases List.mem_append.mp hmem with hin | hin
  · exact absurd (l.cell_before _ hin) (by simp [isspace_comma])
  · exact ((prints_plain l.cell_text).2 _ hin).2 rfl

/-- A suffix that is empty or starts with a comma or white space, and so does what is left of
it in front of its first comma. -/
theorem CpsiLine.suffix_head (l : CpsiLine) {suffix : Bytes} (hsuffix : suffix <+: l.suffix) :
    ∀ c ∈ (suffix.takeWhile (· ≠ ch ',')).head?, isspace c = true := by
  intro c hc
  rcases suffix with _ | ⟨x, suffix⟩
  · simp at hc
  · by_cases hx : x = ch ','
    · simp [hx] at hc
    · have hcx : x = c := by simpa [hx] using hc
      obtain ⟨u, hu⟩ := hsuffix
      have hstart := l.suffix_start x (by rw [← hu]; rfl)
      exact hcx ▸ hstart.resolve_left hx

/-- The tokens of a line whose suffix has been cut somewhere. -/
theorem CpsiLine.toks (l : CpsiLine) {suffix : Bytes} (hsuffix : suffix <+: l.suffix) :
    ∃ rest more, (∀ c ∈ rest.head?, isspace c = true) ∧ cpsiToks (l.upToCell ++ suffix)
      = l.mode :: l.state :: l.plmnField :: l.tacText.text
        :: (l.cellBefore ++ l.cellText ++ rest) :: more := by
  obtain ⟨htacNe, htacPlain⟩ := prints_plain l.tac_text
  have htac : ch ',' ∉ l.tacText.text :=
    l.tacText.not_mem_text isspace_comma fun hin => (htacPlain _ hin).2 rfl
  obtain ⟨more, hmore⟩ := splitOn_head (ch ',') (l.cellBefore ++ l.cellText ++ suffix)
  have hlast : (l.cellBefore ++ l.cellText ++ suffix).takeWhile (· ≠ ch ',')
      = l.cellBefore ++ l.cellText ++ suffix.takeWhile (· ≠ ch ',') := by
    refine List.takeWhile_append_of_pos fun c hc => ?_
    simpa using fun heq : c = ch ',' => l.comma_not_mem_cell (heq ▸ hc)
  refine ⟨suffix.takeWhile (· ≠ ch ','), more.filter fun field => field ≠ [],
    l.suffix_head hsuffix, ?_⟩
  have hplmnNe : l.plmnField ≠ [] := by simp [CpsiLine.plmnField]
  have htacTextNe : l.tacText.text ≠ [] := by simp [Padded.text, htacNe]
  rw [cpsiToks, l.afterPrefix_eq, strtok_r, splitOn_append_cons l.mode_comma,
    splitOn_append_cons l.state_comma, splitOn_append_cons l.comma_not_mem_plmn,
    splitOn_append_cons htac, hmore, hlast]
  simp [l.mode_ne, l.state_ne, hplmnNe, htacTextNe, (prints_plain l.cell_text).1]

/-- **Reading back.** For every line of the documented form whose text up to the cell id fits
in 255 bytes, `parse_cpsi_line` returns its numbers, and the record is valid. -/
theorem parse_cpsi_line_printed (l : CpsiLine) (hfits : l.upToCell.length ≤ 255) :
    parse_cpsi_line l.text = some l.info := by
  have hcut : l.text.take 255 = l.upToCell ++ l.suffix.take (255 - l.upToCell.length) := by
    rw [CpsiLine.text, List.take_append, List.take_of_length_le hfits]
  have hlen : (l.upToCell ++ l.suffix.take (255 - l.upToCell.length)).length ≤ 255 := by
    rw [← hcut]
    exact List.length_take_le _ _
  obtain ⟨rest, more, hrest, htoks⟩ := l.toks (List.take_prefix (255 - l.upToCell.length) l.suffix)
  obtain ⟨a, b, hdash, hmcc, hmnc⟩ := l.plmn_read
  have hrange := l.mcc_range
  have hrange' := l.mnc_range
  have htacPlain : ∀ c ∈ l.tacText.core, isspace c = false :=
    fun c hc => ((prints_plain l.tac_text).2 c hc).1
  have htac : strtoul (trim_ws l.tacText.text) = l.tac := by
    rw [l.tacText.trim_ws_text htacPlain, ← List.append_nil l.tacText.core]
    exact strtoul_prints l.tac_text l.tac_range (by simp)
  rw [parse_cpsi_line_cut, hcut, parse_cpsi_line_eq_some_iff hlen, htoks]
  refine ⟨⟨l.plmnField, a, b, rfl, hdash, hmcc, hmnc, ?_⟩, ?_, ?_, rfl⟩
  · dsimp only [CpsiLine.info]
    omega
  · exact htac.symm
  · exact (l.cell_read hrest).symm

/-- `OK +CPSI: LTE,Online,310-020,0x0232, 27447297 ,55,...`. -/
def lteLine : CpsiLine where
  preamble := ascii "OK "
  mode := ascii " LTE"
  state := ascii "Online"
  mcc := 310
  mnc := 20
  tac := 0x232
  cell_id := 27447297
  mccText := ⟨[], ascii "310", [], by simp [IsBlank], by simp [IsBlank]⟩
  mncText := ⟨[], ascii "020", [], by simp [IsBlank], by simp [IsBlank]⟩
  tacText := ⟨[], ascii "0x0232", [], by simp [IsBlank], by simp [IsBlank]⟩
  cellBefore := ascii " "
  cellText := ascii "27447297"
  suffix := ascii " ,55,EUTRAN-BAND5"
  first := by decide
  mode_ne := by decide
  mode_comma := by decide
  state_ne := by decide
  state_comma := by decide
  mcc_range := by omega
  mnc_range := by omega
  tac_range := by omega
  cell_range := by omega
  mcc_text := by decide
  mnc_text := by decide
  tac_text := Or.inr ⟨120, ascii "0232", rfl, Or.inl rfl, by decide, by decide, by decide⟩
  cell_text := Or.inl ⟨by decide, Or.inr (by decide)⟩
  cell_before := by
    intro c hc
    obtain rfl : c = 32 := by simpa [ascii] using hc
    rfl
  suffix_start := by
    intro c hc
    obtain rfl : (32 : UInt8) = c := Option.some.inj hc
    exact Or.inr rfl

theorem parse_cpsi_line_lte :
    lteLine.upToCell.length ≤ 255 ∧
      parse_cpsi_line lteLine.text = some ⟨310, 20, 0x232, 27447297, true⟩ := by
  have hfits : lteLine.upToCell.length ≤ 255 := by decide
  exact ⟨hfits, parse_cpsi_line_printed lteLine hfits⟩

end PppAmb
