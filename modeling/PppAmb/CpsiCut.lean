import PppAmb.CpsiRoundTrip

/-!
# Cell Reports That Are Cut

`cpsi_con_reintentos` hands over the first 127 bytes of a report. This module says which numbers
of a line `parse_cpsi_line` still reads as they are.

## Main results

* `Padded.strtoul_cut`, `Padded.atoi_cut`: a number in a field that is cut is read as it is exactly
  when all of its digits are left, or it is zero.
* `CpsiLine.cut_read`: the same for the numbers of an accepted line.
-/

namespace PppAmb

/-! ### Numbers that are cut -/

/-- What the C library reads from the beginning of a zero. -/
theorem strtoul_prefix_zero {p s : Bytes} (h : Prints s 0) (hp : p <+: s) : strtoul p = 0 := by
  have hdigits : ∀ {base : ℕ} {q r : Bytes}, 1 ≤ base → q <+: r → digitsValue base r = 0 →
      digitsValue base q = 0 := by
    intro base q r hbase hq hr
    have := digitsValue_le_of_isPrefix hbase hq
    omega
  rcases h with ⟨hdec, -⟩ | ⟨x, r, rfl, hx, -, hr, hzero⟩
  · have hall : p.all (isDigitOf 10) = true :=
      List.all_eq_true.mpr fun c hc => (decimal_digits hdec).2 c (hp.subset hc)
    have hle := strtoul_le_decimal hall
    have := hdigits (by omega) hp (decimal_value hdec)
    omega
  · rcases p with _ | ⟨c, _ | ⟨y, q⟩⟩
    · rfl
    · obtain ⟨rfl, -⟩ := List.cons_prefix_cons.mp hp
      rfl
    · obtain ⟨rfl, hp'⟩ := List.cons_prefix_cons.mp hp
      obtain ⟨rfl, hq⟩ := List.cons_prefix_cons.mp hp'
      have hle := strtoul_le_hex hx q
      have := hdigits (by omega) hq hzero
      omega

theorem numeral_of_prints {s : Bytes} {v : ℕ} (h : Prints s v) : numeral s = some v := by
  rcases h with ⟨hdec, -⟩ | ⟨x, r, rfl, hx, hne, hr, rfl⟩
  · rcases s with _ | ⟨c, _ | ⟨x, r⟩⟩
    · exact hdec
    · exact hdec
    · have hx : isDigitOf 10 x = true := (decimal_digits hdec).2 x (by simp)
      obtain ⟨-, -, -, hx₁, hx₂⟩ := decimalDigit_plain hx
      rw [numeral, if_neg (fun hmark => hmark.2.elim hx₁ hx₂)]
      exact hdec
  · rw [numeral, if_pos ⟨rfl, hx⟩, if_pos ⟨hne, hr⟩]

/-- A beginning of a printed number is read as the number exactly when it is all of it, or the
number is zero. -/
theorem strtoul_take {s : Bytes} {v : ℕ} (h : Prints s v) (hv : v < 2 ^ 32) (k : ℕ) :
    strtoul (s.take k) = v ↔ v = 0 ∨ s.length ≤ k := by
  constructor
  · intro hread
    by_contra hno
    rw [not_or, not_le] at hno
    refine strtoul_prefix_ne (numeral_of_prints h) hno.1 (List.take_prefix k s) ?_ hread
    intro heq
    have hlen := congrArg List.length heq
    rw [List.length_take] at hlen
    omega
  · rintro (rfl | hlong)
    · exact strtoul_prefix_zero h (List.take_prefix k s)
    · have hread : strtoul (s ++ []) = v := strtoul_prints h hv (by simp)
      rw [List.append_nil] at hread
      rw [List.take_of_length_le hlong, hread]

/-- `atoi` of decimal digits, if there are any. -/
theorem atoi_digits {s : Bytes} (h : ∀ c ∈ s, isDigitOf 10 c = true) :
    atoi s = min (2 ^ 31 - 1 : Int) (digitsValue 10 s) := by
  have hall : s.all (isDigitOf 10) = true := List.all_eq_true.mpr h
  rcases List.eq_nil_or_concat s with rfl | ⟨u, d, rfl⟩
  · rfl
  · exact atoi_decimal (by rw [decimal, if_pos ⟨by simp, hall⟩])

theorem atoi_take {s : Bytes} {v : ℕ} (h : decimal s = some v) (hv : v < 2 ^ 31) (k : ℕ) :
    0 ≤ atoi (s.take k) ∧ (atoi (s.take k) = v ↔ v = 0 ∨ s.length ≤ k) := by
  have hdigits : ∀ c ∈ s.take k, isDigitOf 10 c = true := fun c hc =>
    (decimal_digits h).2 c (List.mem_of_mem_take hc)
  have hvalue := decimal_value h
  have hle := digitsValue_le_of_isPrefix (by omega : 1 ≤ 10) (List.take_prefix k s)
  rw [atoi_digits hdigits]
  refine ⟨by omega, ?_⟩
  constructor
  · intro hread
    by_contra hno
    rw [not_or, not_le] at hno
    have hne : s.take k ≠ s := by
      intro heq
      have hlen := congrArg List.length heq
      rw [List.length_take] at hlen
      omega
    have hlt := digitsValue_lt_of_isPrefix (by omega : 2 ≤ 10) (List.take_prefix k s) hne (by omega)
    omega
  · rintro (hzero | hlong)
    · omega
    · rw [List.take_of_length_le hlong]
      omega

/-! ### Fields that are cut -/

/-- A padded text that is cut. -/
def Padded.cut (p : Padded) (m : ℕ) : Padded where
  before := p.before.take m
  core := p.core.take (m - p.before.length)
  after := p.after.take (m - p.before.length - p.core.length)
  blankBefore := fun c hc => p.blankBefore c (List.mem_of_mem_take hc)
  blankAfter := fun c hc => p.blankAfter c (List.mem_of_mem_take hc)

theorem Padded.text_cut (p : Padded) (m : ℕ) : (p.cut m).text = p.text.take m := by
  simp [Padded.cut, Padded.text, List.take_append, Nat.sub_sub]

theorem Padded.trim_ws_take (p : Padded) (hplain : ∀ c ∈ p.core, isspace c = false) (m : ℕ) :
    trim_ws (p.text.take m) = p.core.take (m - p.before.length) := by
  rw [← p.text_cut]
  exact (p.cut m).trim_ws_text fun c hc => hplain c (List.mem_of_mem_take hc)

/-- All digits of a number that is not empty are left. -/
theorem Padded.length_core_le_iff (p : Padded) (hne : p.core ≠ []) (m : ℕ) :
    p.core.length ≤ m - p.before.length ↔ (p.before ++ p.core).length ≤ m := by
  have hpos := List.length_pos_iff.mpr hne
  rw [List.length_append]
  omega

/-- **A cut number** is read as it is exactly when all of its digits are left, or it is zero. -/
theorem Padded.strtoul_cut (p : Padded) {v : ℕ} (h : Prints p.core v) (hv : v < 2 ^ 32) (m : ℕ) :
    strtoul (trim_ws (p.text.take m)) = v ↔ v = 0 ∨ (p.before ++ p.core).length ≤ m := by
  obtain ⟨hne, hplain⟩ := prints_plain h
  rw [p.trim_ws_take (fun c hc => (hplain c hc).1), strtoul_take h hv, p.length_core_le_iff hne]

theorem Padded.atoi_cut (p : Padded) {v : ℕ} (h : decimal p.core = some v) (hv : v < 2 ^ 31)
    (m : ℕ) : 0 ≤ atoi (p.core.take (m - p.before.length)) ∧
      (atoi (p.core.take (m - p.before.length)) = v ↔ v = 0 ∨ (p.before ++ p.core).length ≤ m) := by
  rw [← p.length_core_le_iff (decimal_digits h).1]
  exact atoi_take h hv _

/-! ### The tokens of a cut line -/

/-- A first field in front of the others. -/
theorem strtok_r_cons {b : UInt8} {s : Bytes} (hne : s ≠ []) (hs : b ∉ s) (t : Bytes) :
    strtok_r b (s ++ b :: t) = s :: strtok_r b t := by
  rw [strtok_r, splitOn_append_cons hs]
  simp [hne, strtok_r]

/-- A last field; it is passed over if it is empty. -/
theorem strtok_r_last {b : UInt8} {s : Bytes} (hs : b ∉ s) :
    strtok_r b s = if s = [] then [] else [s] := by
  have hsplit : s.splitOn b = [s] := by
    have h : ([b].intercalate [s]).splitOn b = [s] :=
      List.splitOn_intercalate b (by simpa using hs) (by simp)
    simpa using h
  rw [strtok_r, hsplit]
  by_cases hne : s = [] <;> simp [hne]

/-- A text that is cut ends in front of a byte or behind it. -/
theorem take_append_cons_cases (s : Bytes) (b : UInt8) (t : Bytes) (n : ℕ) :
    (n ≤ s.length ∧ (s ++ b :: t).take n = s.take n) ∨
      ∃ m, n = s.length + 1 + m ∧ (s ++ b :: t).take n = s ++ b :: t.take m := by
  rcases Nat.lt_or_ge s.length n with hlong | hshort
  · obtain ⟨m, rfl⟩ : ∃ m, n = s.length + (m + 1) := ⟨n - s.length - 1, by omega⟩
    exact .inr ⟨m, by omega, by rw [List.take_length_add_append, List.take_succ_cons]⟩
  · exact .inl ⟨hshort, List.take_append_of_le_length hshort⟩

theorem not_mem_take {b : UInt8} {s : Bytes} (h : b ∉ s) (n : ℕ) : b ∉ s.take n :=
  fun hmem => h (List.mem_of_mem_take hmem)

/-- Behind the prefix at the front of a line. -/
theorem cpsiToks_start (u : Bytes) : cpsiToks (ascii "+CPSI:" ++ u) = strtok_r (ch ',') u := by
  rw [cpsiToks, afterPrefix, strstr_front]
  rfl

/-- Less than three tokens, or no dash in the third. -/
theorem not_plmnRead {toks : List Bytes} (h : ∀ tok ∈ toks[2]?, cutAt (ch '-') (trim_ws tok) = none)
    (mcc mnc : Int) : ¬ PlmnRead toks mcc mnc := by
  rintro ⟨tok, a, b, htok, hcut, -⟩
  exact absurd ((h tok htok).symm.trans hcut) (by simp)

/-! ### Where a line is cut -/

section Line

variable (l : CpsiLine)

/-- The line up to the dash in its third field. -/
def CpsiLine.upToDash : Bytes :=
  l.preamble ++ (ascii "+CPSI:" ++ (l.mode ++ ch ',' :: (l.state ++ ch ',' ::
    (l.mccText.text ++ [ch '-']))))

/-- The line up to the last digit of the network code. -/
def CpsiLine.upToMnc : Bytes :=
  l.upToDash ++ (l.mncText.before ++ l.mncText.core)

/-- The line up to the last digit of the area code. -/
def CpsiLine.upToTac : Bytes :=
  l.upToDash ++ (l.mncText.text ++ ch ',' :: (l.tacText.before ++ l.tacText.core))

theorem CpsiLine.length_upToCell : l.upToCell.length = l.upToDash.length + l.mncText.text.length + 1
    + l.tacText.text.length + 1 + (l.cellBefore ++ l.cellText).length := by
  simp only [CpsiLine.upToCell, CpsiLine.upToDash, CpsiLine.plmnField, List.length_append,
    List.length_cons, List.length_nil]
  omega

/-- A field that is left of a cut line, unless it is empty. -/
def lastField (x : Bytes) : List Bytes :=
  if x = [] then [] else [x]

/-- **Where the first 127 bytes end**, if their third token is read: in the network code, in the
area code, in the cell id, or behind it. -/
inductive CpsiLine.CutIn (l : CpsiLine) : List Bytes → Prop
  | mnc (m : ℕ) (hlen : 127 = l.upToDash.length + m) (hm : m ≤ l.mncText.text.length) :
      l.CutIn [l.mode, l.state, l.mccText.text ++ ch '-' :: l.mncText.text.take m]
  | tac (m : ℕ) (hlen : 127 = l.upToDash.length + l.mncText.text.length + 1 + m)
      (hm : m ≤ l.tacText.text.length) :
      l.CutIn (l.mode :: l.state :: l.plmnField :: lastField (l.tacText.text.take m))
  | cell (m : ℕ) (hlen : 127 = l.upToDash.length + l.mncText.text.length + 1
        + l.tacText.text.length + 1 + m) (hm : m ≤ (l.cellBefore ++ l.cellText).length) :
      l.CutIn (l.mode :: l.state :: l.plmnField :: l.tacText.text ::
        lastField ((l.cellBefore ++ l.cellText).take m))
  | behind (toks : List Bytes) (hlen : l.upToCell.length ≤ 127) : l.CutIn toks

theorem CpsiLine.cutIn (hstart : l.preamble = []) {mcc mnc : Int}
    (h : PlmnRead (cpsiToks (l.text.take 127)) mcc mnc) :
    l.CutIn (cpsiToks (l.text.take 127)) := by
  have htac : ch ',' ∉ l.tacText.text :=
    l.tacText.not_mem_text isspace_comma fun hin => ((prints_plain l.tac_text).2 _ hin).2 rfl
  have hmccDash : ch '-' ∉ l.mccText.text := l.mccText.not_mem_text (by decide) fun hin =>
    (decimalDigit_plain ((decimal_digits l.mcc_text).2 _ hin)).2.1 rfl
  have hmccComma : ch ',' ∉ l.mccText.text :=
    fun hin => l.comma_not_mem_plmn (List.mem_append_left _ hin)
  have hplmnNe : l.plmnField ≠ [] := by simp [CpsiLine.plmnField]
  have htacNe : l.tacText.text ≠ [] := by simp [Padded.text, (prints_plain l.tac_text).1]
  have htext : l.text.take 127 = ascii "+CPSI:" ++ (l.mode ++ ch ',' :: (l.state ++ ch ',' ::
      (l.mccText.text ++ ch '-' :: (l.mncText.text ++ ch ',' :: (l.tacText.text ++ ch ',' ::
        (l.cellBefore ++ l.cellText ++ l.suffix)))))).take 121 := by
    have hline : l.text = ascii "+CPSI:" ++ (l.mode ++ ch ',' :: (l.state ++ ch ',' ::
        (l.mccText.text ++ ch '-' :: (l.mncText.text ++ ch ',' :: (l.tacText.text ++ ch ',' ::
          (l.cellBefore ++ l.cellText ++ l.suffix)))))) := by
      simp [CpsiLine.text, CpsiLine.upToCell, CpsiLine.plmnField, hstart]
    have hprefix : 127 = (ascii "+CPSI:").length + 121 := rfl
    rw [hline, hprefix, List.take_length_add_append]
  have hdash : l.upToDash.length = 6 + l.mode.length + 1 + l.state.length + 1
      + l.mccText.text.length + 1 := by
    have hprefix : (ascii "+CPSI:").length = 6 := rfl
    simp only [CpsiLine.upToDash, hstart, List.nil_append, List.length_append, List.length_cons,
      List.length_nil, hprefix]
    omega
  rw [htext, cpsiToks_start] at h ⊢
  rcases take_append_cons_cases l.mode (ch ',') _ 121 with ⟨-, hcut⟩ | ⟨m₁, hm₁, hcut⟩
  · rw [hcut, strtok_r_last (not_mem_take l.mode_comma 121)] at h
    exact absurd h (not_plmnRead (by split <;> simp) mcc mnc)
  rw [hcut, strtok_r_cons l.mode_ne l.mode_comma] at h ⊢
  rcases take_append_cons_cases l.state (ch ',') _ m₁ with ⟨-, hcut⟩ | ⟨m₂, hm₂, hcut⟩
  · rw [hcut, strtok_r_last (not_mem_take l.state_comma m₁)] at h
    exact absurd h (not_plmnRead (by split <;> simp) mcc mnc)
  rw [hcut, strtok_r_cons l.state_ne l.state_comma] at h ⊢
  rcases take_append_cons_cases l.mccText.text (ch '-') _ m₂ with ⟨-, hcut⟩ | ⟨m₃, hm₃, hcut⟩
  · -- no dash in front of the cut
    rw [hcut, strtok_r_last (not_mem_take hmccComma m₂)] at h
    refine absurd h (not_plmnRead ?_ mcc mnc)
    intro tok htok
    have hmem : tok = l.mccText.text.take m₂ := by
      split at htok
      · simp at htok
      · simpa using htok.symm
    rw [hmem]
    exact cutAt_eq_none fun hin => not_mem_take hmccDash m₂
      ((List.dropWhile_suffix _).subset ((List.rdropWhile_prefix _ _).subset hin))
  rw [hcut] at h ⊢
  rcases take_append_cons_cases l.mncText.text (ch ',') _ m₃ with ⟨hle, hcut⟩ | ⟨m₄, hm₄, hcut⟩
  · have hcomma : ch ',' ∉ l.mccText.text ++ ch '-' :: l.mncText.text.take m₃ := by
      intro hin
      refine l.comma_not_mem_plmn ?_
      rw [CpsiLine.plmnField, ← List.take_append_drop m₃ l.mncText.text, ← List.cons_append,
        ← List.append_assoc]
      exact List.mem_append_left _ hin
    rw [hcut, strtok_r_last hcomma, if_neg (by simp)]
    exact .mnc m₃ (by omega) hle
  have hfield : l.mccText.text ++ ch '-' :: (l.mncText.text ++ ch ',' ::
      (l.tacText.text ++ ch ',' :: (l.cellBefore ++ l.cellText ++ l.suffix)).take m₄)
      = l.plmnField ++ ch ',' ::
        (l.tacText.text ++ ch ',' :: (l.cellBefore ++ l.cellText ++ l.suffix)).take m₄ := by
    simp [CpsiLine.plmnField]
  rw [hcut, hfield, strtok_r_cons hplmnNe l.comma_not_mem_plmn]
  rcases take_append_cons_cases l.tacText.text (ch ',') _ m₄ with ⟨hle, hcut⟩ | ⟨m₅, hm₅, hcut⟩
  · rw [hcut, strtok_r_last (not_mem_take htac m₄)]
    exact .tac m₄ (by omega) hle
  rw [hcut, strtok_r_cons htacNe htac]
  rcases Nat.lt_or_ge (l.cellBefore ++ l.cellText).length m₅ with hlong | hle
  · refine .behind _ ?_
    rw [l.length_upToCell]
    omega
  · rw [List.take_append_of_le_length hle, strtok_r_last (not_mem_take l.comma_not_mem_cell m₅)]
    exact .cell m₅ (by omega) hle

/-- A missing token is read as zero, as an empty one would be. -/
theorem numberAt_lastField (x : Bytes) (toks : List Bytes) :
    numberAt toks.length (toks ++ lastField x) = strtoul (trim_ws x) := by
  rw [lastField, numberAt]
  split
  · rename_i hx
    simp [hx, trim_ws]
    rfl
  · simp

/-- The codes of the third token. -/
theorem CpsiLine.plmnRead_codes {toks : List Bytes} {mcc mnc : Int} {q : Padded}
    (hq : ∀ c ∈ q.core, isspace c = false)
    (htok : toks[2]? = some (l.mccText.text ++ ch '-' :: q.text)) (h : PlmnRead toks mcc mnc) :
    mcc = l.mcc ∧ mnc = atoi q.core := by
  obtain ⟨tok, a, b, htok', hcut, rfl, rfl, -⟩ := h
  obtain rfl := Option.some.inj (htok.symm.trans htok')
  obtain ⟨a', b', hcut', hmcc, hmnc⟩ := l.plmn_split q hq
  obtain ⟨rfl, rfl⟩ := Prod.mk.inj (Option.some.inj (hcut'.symm.trans hcut))
  exact ⟨hmcc, by rw [hmnc]⟩

theorem CpsiLine.mnc_read (l : CpsiLine) : atoi l.mncText.core = l.mnc := by
  rw [atoi_decimal l.mnc_text]
  have hrange := l.mnc_range
  omega

theorem CpsiLine.tac_read (l : CpsiLine) : strtoul (trim_ws l.tacText.text) = l.tac := by
  have hcut := l.tacText.strtoul_cut l.tac_text l.tac_range l.tacText.text.length
  rw [List.take_length] at hcut
  refine hcut.mpr (.inr ?_)
  simp only [Padded.text, List.length_append]
  omega

/-- The line with the beginning of its suffix. -/
def CpsiLine.cutBehind (l : CpsiLine) (n : ℕ) : CpsiLine :=
  { l with
    suffix := l.suffix.take n
    suffix_start := by
      intro c hc
      rcases n with _ | n
      · simp at hc
      · refine l.suffix_start c ?_
        rwa [List.head?_take, if_neg (by omega)] at hc }

/-- A cut behind the cell id changes nothing. -/
theorem CpsiLine.parse_cut_behind (h : l.upToCell.length ≤ 127) :
    parse_cpsi_line (l.text.take 127) = some l.info := by
  have htext : l.text.take 127 = (l.cutBehind (127 - l.upToCell.length)).text := by
    rw [CpsiLine.text, List.take_append, List.take_of_length_le h]
    rfl
  rw [htext]
  exact parse_cpsi_line_printed (l.cutBehind _) (h.trans (by omega))

/-- **What is read of a cut line**: its country code, and every other number exactly when it is
zero or ends within the first 127 bytes. -/
theorem CpsiLine.cut_read (hstart : l.preamble = []) {info : ModemUeInfo}
    (h : parse_cpsi_line (l.text.take 127) = some info) :
    info.mcc = l.mcc ∧ 0 ≤ info.mnc ∧
      (info.mnc = l.mnc ↔ l.mnc = 0 ∨ l.upToMnc.length ≤ 127) ∧
      (info.tac = l.tac ↔ l.tac = 0 ∨ l.upToTac.length ≤ 127) ∧
      (info.cell_id = l.cell_id ↔ l.cell_id = 0 ∨ l.upToCell.length ≤ 127) := by
  have hupToMnc : l.upToMnc.length = l.upToDash.length
      + (l.mncText.before ++ l.mncText.core).length := List.length_append
  have hupToTac : l.upToTac.length = l.upToDash.length + l.mncText.text.length + 1
      + (l.tacText.before ++ l.tacText.core).length := by
    simp only [CpsiLine.upToTac, List.length_append, List.length_cons]
    omega
  have hmncText : (l.mncText.before ++ l.mncText.core).length ≤ l.mncText.text.length := by
    simp only [Padded.text, List.length_append]
    omega
  have htacText : (l.tacText.before ++ l.tacText.core).length ≤ l.tacText.text.length := by
    simp only [Padded.text, List.length_append]
    omega
  have hupToCell := l.length_upToCell
  by_cases hwhole : l.upToCell.length ≤ 127
  · -- what is cut off is the suffix
    rw [l.parse_cut_behind hwhole] at h
    obtain rfl := Option.some.inj h
    refine ⟨rfl, Int.natCast_nonneg _, iff_of_true rfl (.inr ?_), iff_of_true rfl (.inr ?_),
      iff_of_true rfl (.inr hwhole)⟩
    · omega
    · omega
  · have hlen : (l.text.take 127).length ≤ 255 := (List.length_take_le _ _).trans (by omega)
    obtain ⟨hplmn, htac, hcell, -⟩ := (parse_cpsi_line_eq_some_iff hlen).mp h
    have hcut := l.cutIn hstart hplmn
    generalize cpsiToks (l.text.take 127) = toks at hplmn htac hcell hcut
    cases hcut with
    | mnc m hm hle =>
        obtain ⟨hmcc, hmnc⟩ := l.plmnRead_codes (q := l.mncText.cut m)
          (fun c hc => l.mnc_plain c (List.mem_of_mem_take hc))
          (by rw [Padded.text_cut]; rfl) hplmn
        obtain ⟨hnonneg, hiff⟩ := l.mncText.atoi_cut l.mnc_text
          (lt_of_le_of_lt l.mnc_range (by omega)) m
        have hzero : info.tac = 0 ∧ info.cell_id = 0 := ⟨htac, hcell⟩
        rw [hmnc]
        refine ⟨hmcc, hnonneg, ?_, by omega, by omega⟩
        exact hiff.trans (or_congr_right (by omega))
    | tac m hm hle =>
        obtain ⟨hmcc, hmnc⟩ := l.plmnRead_codes l.mnc_plain rfl hplmn
        have hread := numberAt_lastField (l.tacText.text.take m) [l.mode, l.state, l.plmnField]
        have hzero : info.cell_id = 0 := by
          rw [hcell, lastField]
          split <;> rfl
        rw [hmnc, l.mnc_read]
        refine ⟨hmcc, by omega, by omega, ?_, by omega⟩
        rw [htac]
        refine (Eq.congr_left hread).trans ?_
        rw [l.tacText.strtoul_cut l.tac_text l.tac_range]
        exact or_congr_right (by omega)
    | cell m hm hle =>
        obtain ⟨hmcc, hmnc⟩ := l.plmnRead_codes l.mnc_plain rfl hplmn
        have hread := numberAt_lastField ((l.cellBefore ++ l.cellText).take m)
          [l.mode, l.state, l.plmnField, l.tacText.text]
        have htac' : info.tac = l.tac := htac.trans l.tac_read
        set p : Padded := ⟨l.cellBefore, l.cellText, [], l.cell_before, by simp [IsBlank]⟩ with hp
        have htext : l.cellBefore ++ l.cellText = p.text := by simp [Padded.text, hp]
        rw [hmnc, l.mnc_read]
        refine ⟨hmcc, by omega, by omega, by omega, ?_⟩
        rw [hcell]
        refine (Eq.congr_left hread).trans ?_
        rw [htext, p.strtoul_cut l.cell_text l.cell_range]
        refine or_congr_right ?_
        change (l.cellBefore ++ l.cellText).length ≤ m ↔ _
        omega
    | behind _ hle => exact absurd hle hwhole

end Line

end PppAmb
