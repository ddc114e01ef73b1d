import PppAmb.CityAttempts
import PppAmb.CpsiCut
import PppAmb.JsonNumbers

/-!
# The Request for the City of a Cell

`modem_unwiredlabs_city_state` sends the cell of `s_ue_info` to a server. This module follows a
report of a cell, in the form for LTE or in the one for GSM, from the line of the modem to the
payload that is posted.

## Main results

* `print_cellRequest`: the request for a cell as a JSON text.
* `request_right_iff`: every payload that is posted describes the cell of the line exactly when
  nothing is posted because of the length, or the line is one for LTE, its numbers are left by the
  cut, and the token is the text of a string.
* `gsm_sent_as_lte`: a cell of GSM is described as one of LTE.
-/

namespace PppAmb

/-! ### Lines and requests -/

/-- The radio of a cell. -/
inductive Radio
  | lte
  | gsm
  deriving DecidableEq

/-- The first field of the report. -/
def Radio.mode : Radio → Bytes
  | .lte => ascii "LTE"
  | .gsm => ascii "GSM"

/-- The name the server knows it by. -/
def Radio.word : Radio → StringText
  | .lte => plainName "lte" rfl
  | .gsm => plainName "gsm" rfl

/-- A report in the form for LTE or for GSM. -/
structure RadioLine extends CpsiLine where
  radio : Radio
  at_start : preamble = []
  mode_text : trim_ws mode = radio.mode

/-- The request for the address of a cell. -/
def cellRequest (token : StringText) (radio : Radio) (mcc mnc lac cid : ℕ) : Json :=
  .object [
    (plainName "token" rfl, .string token),
    (plainName "radio" rfl, .string radio.word),
    (plainName "mcc" rfl, .number (natText mcc)),
    (plainName "mnc" rfl, .number (natText mnc)),
    (plainName "cells" rfl, .array [.object [
      (plainName "lac" rfl, .number (natText lac)),
      (plainName "cid" rfl, .number (natText cid))]]),
    (plainName "address" rfl, .number (natText 2))]

/-- The payload is the request for the cell of the line, with a token. -/
def RadioLine.Described (l : RadioLine) (payload : Bytes) : Prop :=
  ∃ token : StringText,
    (cellRequest token l.radio l.mcc l.mnc l.tac l.cell_id).wellFormed = true ∧
      payload = (cellRequest token l.radio l.mcc l.mnc l.tac l.cell_id).print

/-- What is posted: the array `payload`, at every attempt that has a client (`city_state_calls`). -/
def payloadsSent (token : Bytes) (ue : UeState) (perform : Bytes → ℕ → Option Attempt)
    (city_len state_len : ℕ) : List Bytes :=
  (attemptsMade token ue perform city_len state_len).filterMap fun a =>
    a.map fun _ => snprintf (ulPayload token ue.s_ue_info) 256

/-- Every payload that is posted describes the cell of the line, and if none is, the call returns
an error. -/
def RadioLine.RequestRight (l : RadioLine) (token : Bytes) (ue : UeState) : Prop :=
  ∀ (perform : Bytes → ℕ → Option Attempt) (city_len state_len : ℕ),
    (∀ payload ∈ payloadsSent token ue perform city_len state_len, l.Described payload) ∧
      (payloadsSent token ue perform city_len state_len = [] →
        (modem_unwiredlabs_city_state token ue perform city_len state_len).1 ≠ ESP_OK)

/-- The length of the request: the text around the token and the numbers, and these. -/
def requestLength (token : Bytes) (info : ModemUeInfo) : ℕ :=
  78 + token.length + (signed info.mcc).length + (signed info.mnc).length
    + (unsigned info.tac).length + (unsigned info.cell_id).length

/-- The numbers of the line that are not zero end within its first 127 bytes. -/
def CpsiLine.Kept (l : CpsiLine) : Prop :=
  (l.mnc = 0 ∨ l.upToMnc.length ≤ 127) ∧ (l.tac = 0 ∨ l.upToTac.length ≤ 127) ∧
    (l.cell_id = 0 ∨ l.upToCell.length ≤ 127)

/-! ### Texts of requests -/

/-- The request behind its token. -/
def afterToken (radio mcc mnc lac cid : Bytes) : Bytes :=
  ascii ",\"radio\":\"" ++ radio ++ ch '"' :: (ascii ",\"mcc\":" ++ mcc ++ ch ',' :: (ascii "\"mnc\":"
    ++ mnc ++ ch ',' :: (ascii "\"cells\":[\x7b\"lac\":" ++ lac ++ ch ',' :: (ascii "\"cid\":" ++ cid
    ++ ch '}' :: ascii "],\"address\":2\x7d"))))

theorem print_cellRequest (token : StringText) (radio : Radio) (mcc mnc lac cid : ℕ) :
    (cellRequest token radio mcc mnc lac cid).print = ascii "\x7b\"token\":\"" ++ token.raw
      ++ ch '"' :: afterToken radio.word.raw (unsigned mcc) (unsigned mnc) (unsigned lac)
        (unsigned cid) := by
  have htwo : unsigned 2 = [50] := by decide
  simp [cellRequest, Json.print, Json.printMembers, Json.printElements, objectText, bracketed,
    itemsTail, memberText, afterToken, plainName, htwo, ascii, ch]

theorem ulPayload_eq (token : Bytes) (info : ModemUeInfo) :
    ulPayload token info = ascii "\x7b\"token\":\"" ++ token ++ ch '"' :: afterToken (ascii "lte")
      (signed info.mcc) (signed info.mnc) (unsigned info.tac) (unsigned info.cell_id) := by
  simp [ulPayload, afterToken, ascii, ch]

theorem length_ulPayload (token : Bytes) (info : ModemUeInfo) :
    (ulPayload token info).length = requestLength token info := by
  simp [ulPayload, requestLength, ascii]
  omega

/-- Two texts without a byte in front of it. -/
theorem append_cons_inj {b : UInt8} {s s' t t' : Bytes} (hs : b ∉ s) (hs' : b ∉ s')
    (h : s ++ b :: t = s' ++ b :: t') : s = s' ∧ t = t' := by
  rcases append_cons_eq_append_cons h with heq | ⟨u, hu, -⟩ | ⟨u, hu, -⟩
  · exact heq
  · exact absurd (by rw [hu]; simp) hs
  · exact absurd (by rw [hu]; simp) hs'

theorem not_mem_unsigned {b : UInt8} (hb : isDigitOf 10 b = false) (n : ℕ) : b ∉ unsigned n :=
  not_mem_digits (unsigned_digits n) hb

theorem signed_natCast (n : ℕ) : signed n = unsigned n := by
  rw [signed, if_neg (by omega)]
  rfl

/-- The request behind its token tells the radio and the numbers. -/
theorem afterToken_inj {radio radio' : Bytes} {mcc mnc lac cid mcc' mnc' lac' cid' : ℕ}
    (hradio : ch '"' ∉ radio) (hradio' : ch '"' ∉ radio')
    (h : afterToken radio (unsigned mcc) (unsigned mnc) (unsigned lac) (unsigned cid)
      = afterToken radio' (unsigned mcc') (unsigned mnc') (unsigned lac') (unsigned cid')) :
    radio = radio' ∧ mcc = mcc' ∧ mnc = mnc' ∧ lac = lac' ∧ cid = cid' := by
  have hcomma := not_mem_unsigned (b := ch ',') rfl
  have hbrace := not_mem_unsigned (b := ch '}') rfl
  simp only [afterToken, List.append_assoc, List.append_cancel_left_eq] at h
  obtain ⟨hr, h⟩ := append_cons_inj hradio hradio' h
  rw [List.append_cancel_left_eq] at h
  obtain ⟨hmcc, h⟩ := append_cons_inj (hcomma mcc) (hcomma mcc') h
  rw [List.append_cancel_left_eq] at h
  obtain ⟨hmnc, h⟩ := append_cons_inj (hcomma mnc) (hcomma mnc') h
  rw [List.append_cancel_left_eq] at h
  obtain ⟨hlac, h⟩ := append_cons_inj (hcomma lac) (hcomma lac') h
  rw [List.append_cancel_left_eq] at h
  obtain ⟨hcid, -⟩ := append_cons_inj (hbrace cid) (hbrace cid') h
  exact ⟨hr, unsigned_inj hmcc, unsigned_inj hmnc, unsigned_inj hlac, unsigned_inj hcid⟩

theorem afterToken_eq (radio mcc mnc lac cid : Bytes) : ∃ s,
    afterToken radio mcc mnc lac cid = ch ',' :: ch '"' :: ch 'r' :: s :=
  ⟨_, rfl⟩

/-- Where the string of the token ends. -/
theorem token_inj {raw token s t : Bytes} (hraw : isStringBody raw = true)
    (htoken : ch '"' ∉ token) (hs : ∃ u, s = ch ',' :: ch '"' :: ch 'r' :: u)
    (ht : ∃ u, t = ch ',' :: ch '"' :: ch 'r' :: u)
    (h : raw ++ ch '"' :: s = token ++ ch '"' :: t) : raw = token ∧ s = t := by
  obtain ⟨s, rfl⟩ := hs
  obtain ⟨t, rfl⟩ := ht
  rcases append_cons_eq_append_cons h with heq | ⟨u, hu, hst⟩ | ⟨u, hu, -⟩
  · exact heq
  · -- the string would go on with a comma and end, or have a bare quote in it
    have hbody : isStringBody u = true := isStringBody_of_append_quote (hu ▸ hraw)
    rcases u with _ | ⟨c, _ | ⟨d, u⟩⟩
    · exact absurd (List.cons.inj hst).1 (by decide)
    · exact absurd (List.cons.inj (List.cons.inj (List.cons.inj hst).2).2).1 (by decide)
    · rw [List.cons_append, List.cons_append, List.cons.injEq, List.cons.injEq] at hst
      rw [← hst.1, ← hst.2.1] at hbody
      exact absurd (not_isStringBody_of_append_quote (s := [ch ',']) hbody) (by decide)
  · exact absurd (by rw [hu]; simp) htoken

/-! ### What is posted -/

section Sent

variable {token : Bytes} {ue : UeState} {perform : Bytes → ℕ → Option Attempt}
  {city_len state_len : ℕ}

/-- Nothing is posted but the whole request, and only if there is a token and the request fits. -/
theorem of_mem_payloadsSent {payload : Bytes}
    (h : payload ∈ payloadsSent token ue perform city_len state_len) :
    token ≠ [] ∧ requestLength token ue.s_ue_info < 256 ∧
      payload = ulPayload token ue.s_ue_info := by
  obtain ⟨a, ha, hpayload⟩ := List.mem_filterMap.mp h
  obtain ⟨a, -, rfl⟩ := Option.map_eq_some_iff.mp hpayload
  rw [attemptsMade] at ha
  split at ha
  · exact absurd ha (by simp)
  · rename_i hsend
    rw [not_or, not_or, length_ulPayload, ge_iff_le, not_le] at hsend
    refine ⟨hsend.2.1, hsend.2.2, List.take_of_length_le ?_⟩
    rw [length_ulPayload]
    omega

/-- An attempt that gets no answer. -/
def unanswered : Attempt :=
  ⟨[], ESP_FAIL, 0, false⟩

/-- With a client for every attempt the request is posted. -/
theorem ulPayload_sent (hvalid : ue.s_ue_valid = true) (htoken : token ≠ [])
    (hfits : requestLength token ue.s_ue_info < 256) (a : Attempt) :
    ulPayload token ue.s_ue_info ∈ payloadsSent token ue (fun _ _ => some a) 1 1 := by
  have hlength := length_ulPayload token ue.s_ue_info
  refine List.mem_filterMap.mpr ⟨some a, ?_, ?_⟩
  · rw [attemptsMade, if_neg (by simp [hvalid, htoken]; omega), ulAttempts]
    simp only
    split <;> simp
  · exact congrArg some (List.take_of_length_le (by omega))

/-- If nothing is posted, the call returns an error. -/
theorem error_of_unsent (h : payloadsSent token ue perform city_len state_len = []) :
    (modem_unwiredlabs_city_state token ue perform city_len state_len).1 ≠ ESP_OK := by
  have hresult := city_state_result token ue perform city_len state_len
  generalize modem_unwiredlabs_city_state token ue perform city_len state_len = r at hresult
  cases hresult with
  | @found a hlast hfound =>
      have hsent := (List.filterMap_eq_nil_iff.mp h) (some a) (List.mem_of_getLast? hlast)
      exact absurd hsent (by simp)
  | failed herr => exact herr

end Sent

/-! ### The request for the cell of a line -/

theorem wellFormed_cellRequest {token : StringText} (radio : Radio) (mcc mnc lac cid : ℕ) :
    (cellRequest token radio mcc mnc lac cid).wellFormed = true ↔
      isStringBody token.raw = true := by
  have hword : isStringBody radio.word.raw = true := by
    cases radio <;> rfl
  have hname : isStringBody (ascii "token") = true ∧ isStringBody (ascii "radio") = true ∧
      isStringBody (ascii "mcc") = true ∧ isStringBody (ascii "mnc") = true ∧
      isStringBody (ascii "cells") = true ∧ isStringBody (ascii "lac") = true ∧
      isStringBody (ascii "cid") = true ∧ isStringBody (ascii "address") = true :=
    ⟨rfl, rfl, rfl, rfl, rfl, rfl, rfl, rfl⟩
  simp [cellRequest, Json.wellFormed, Json.wellFormedMembers, Json.wellFormedElements, plainName,
    hword, hname]

/-- The request for a cell of LTE with the numbers of the line, and no other, describes its cell. -/
theorem described_ulPayload_iff (l : RadioLine) {token : Bytes} (hquote : ch '"' ∉ token)
    {info : ModemUeInfo} (hmcc : info.mcc = l.mcc) (hmnc : 0 ≤ info.mnc) :
    l.Described (ulPayload token info) ↔ isStringBody token = true ∧ l.radio = .lte ∧
      info.mnc = l.mnc ∧ info.tac = l.tac ∧ info.cell_id = l.cell_id := by
  obtain ⟨mnc, hmncNat⟩ := Int.eq_ofNat_of_zero_le hmnc
  have hpayload : ulPayload token info = ascii "\x7b\"token\":\"" ++ token ++ ch '"' ::
      afterToken (ascii "lte") (unsigned l.mcc) (unsigned mnc) (unsigned info.tac)
        (unsigned info.cell_id) := by
    rw [ulPayload_eq, hmcc, hmncNat, signed_natCast, signed_natCast]
  rw [hpayload]
  constructor
  · rintro ⟨raw, hvalid, htext⟩
    have hbody := (wellFormed_cellRequest _ _ _ _ _).mp hvalid
    rw [print_cellRequest, List.append_assoc, List.append_assoc,
      List.append_cancel_left_eq] at htext
    have hradio : ch '"' ∉ l.radio.word.raw := by
      cases l.radio <;> decide
    obtain ⟨rfl, hrest⟩ := token_inj hbody hquote (afterToken_eq _ _ _ _ _)
      (afterToken_eq _ _ _ _ _) htext.symm
    obtain ⟨hlte, -, rfl, htac, hcell⟩ := afterToken_inj (by decide) hradio hrest.symm
    refine ⟨hbody, ?_, hmncNat, htac, hcell⟩
    cases hr : l.radio with
    | lte => rfl
    | gsm =>
        rw [hr] at hlte
        exact absurd hlte (by decide)
  · rintro ⟨hbody, hlte, hmnc', htac, hcell⟩
    obtain rfl : mnc = l.mnc := by omega
    refine ⟨⟨token, isRawString_of_isStringBody hbody⟩, (wellFormed_cellRequest _ _ _ _ _).mpr hbody,
      ?_⟩
    rw [print_cellRequest, hlte, htac, hcell]
    rfl

/-- **The request for a cell.** For every accepted line in one of the two forms and every token
without a quote: every payload that is posted is the request for the cell of the line, and if none
is posted an error is returned, exactly when there is no token, or the request is too long, or the
line is one for LTE, its numbers are kept, and the token is the text of a string. -/
theorem request_right_iff (l : RadioLine) {modem : ℕ → AtAnswer} {s : UeState}
    (hchosen : chosen modem = some l.text) (haccepted : (cpsiStep modem s).s_ue_valid = true)
    (token : CStr) (hquote : ch '"' ∉ token.bytes) :
    l.RequestRight token.bytes (cpsiStep modem s) ↔ token.bytes = [] ∨
      256 ≤ requestLength token.bytes (cpsiStep modem s).s_ue_info ∨
      (l.radio = .lte ∧ isStringBody token.bytes = true ∧ l.Kept) := by
  obtain ⟨info, hstep⟩ : ∃ info, cpsiStep modem s = ⟨info, true⟩ :=
    ⟨(cpsiStep modem s).s_ue_info, by rw [← haccepted]⟩
  obtain ⟨text, htext, -, hparse⟩ := cpsiStep_valid_iff.mp hstep
  obtain rfl := Option.some.inj (hchosen.symm.trans htext)
  obtain ⟨hmcc, hmnc, hmncIff, htacIff, hcellIff⟩ := l.cut_read l.at_start hparse
  have hdescribed : l.Described (ulPayload token.bytes info) ↔
      l.radio = .lte ∧ isStringBody token.bytes = true ∧ l.Kept := by
    rw [described_ulPayload_iff l hquote hmcc hmnc, hmncIff, htacIff, hcellIff, CpsiLine.Kept]
    exact and_left_comm
  rw [hstep, ← hdescribed]
  constructor
  · intro h
    by_contra hno
    rw [not_or, not_or, not_le] at hno
    obtain ⟨htoken, hfits, hnot⟩ := hno
    have hsent : ulPayload token.bytes info ∈ payloadsSent token.bytes ⟨info, true⟩
        (fun _ _ => some unanswered) 1 1 := ulPayload_sent rfl htoken hfits unanswered
    exact hnot ((h (fun _ _ => some unanswered) 1 1).1 _ hsent)
  · intro h perform city_len state_len
    refine ⟨fun payload hpayload => ?_, error_of_unsent⟩
    obtain ⟨htoken, hfits, rfl⟩ := of_mem_payloadsSent hpayload
    rcases h with hnone | hlong | hgood
    · exact absurd hnone htoken
    · exact absurd hlong (by omega)
    · exact hgood

/-! ### Two cells -/

theorem isBlank_nil : IsBlank [] := by
  simp [IsBlank]

/-- A text without white space around it. -/
def Padded.bare (core : Bytes) : Padded :=
  ⟨[], core, [], isBlank_nil, isBlank_nil⟩

theorem online_ne_nil : ascii "Online" ≠ [] := by
  decide

theorem comma_not_mem_online : ch ',' ∉ ascii "Online" := by
  decide

/-- A report of the network 334-20. -/
def reportOf (radio : Radio) (tac cell_id : ℕ) (tacText cellText : Bytes) (htac : tac < 2 ^ 32)
    (hcell : cell_id < 2 ^ 32) (htacText : Prints tacText tac) (hcellText : Prints cellText cell_id) :
    RadioLine where
  preamble := []
  mode := ch ' ' :: radio.mode
  state := ascii "Online"
  mcc := 334
  mnc := 20
  tac := tac
  cell_id := cell_id
  mccText := .bare (ascii "334")
  mncText := .bare (ascii "20")
  tacText := .bare tacText
  cellBefore := []
  cellText := cellText
  suffix := []
  first := rfl
  mode_ne := by simp
  mode_comma := by cases radio <;> decide
  state_ne := online_ne_nil
  state_comma := comma_not_mem_online
  mcc_range := by omega
  mnc_range := by omega
  tac_range := htac
  cell_range := hcell
  mcc_text := rfl
  mnc_text := rfl
  tac_text := htacText
  cell_text := hcellText
  cell_before := isBlank_nil
  suffix_start := by simp
  radio := radio
  at_start := rfl
  mode_text := by cases radio <;> rfl

theorem lteTac_lt : 0x232 < 2 ^ 32 := by
  omega

theorem lteTac_prints : Prints (ascii "0x232") 0x232 :=
  .inr ⟨120, ascii "232", rfl, .inl rfl, by decide, rfl, rfl⟩

theorem lteCell_prints : Prints (ascii "43790378") 43790378 :=
  .inl ⟨rfl, .inr (by decide)⟩

/-- `+CPSI: LTE,Online,334-20,0x232,43790378`. -/
def lteReport : RadioLine :=
  reportOf .lte 0x232 43790378 (ascii "0x232") (ascii "43790378") lteTac_lt (by omega) lteTac_prints
    lteCell_prints

/-- `+CPSI: GSM,Online,334-20,0x19,31925`. -/
def gsmReport : RadioLine :=
  reportOf .gsm 0x19 31925 (ascii "0x19") (ascii "31925") (by omega) (by omega)
    (.inr ⟨120, ascii "19", rfl, .inl rfl, by decide, rfl, rfl⟩) (.inl ⟨rfl, .inr (by decide)⟩)

/-- A modem that answers with the given text. -/
def repeating (text : CStr) : ℕ → AtAnswer :=
  fun _ => ⟨ESP_OK, text⟩

/-- A text that passes the filter is chosen, and its numbers are stored. -/
theorem accepted_repeating (l : RadioLine) {text : CStr} (htext : text.bytes = l.text)
    (hfits : l.upToCell.length ≤ 127) (hvalid : cpsi_se_ve_valido (l.text.take 255) = true)
    (hcut : cpsi_se_ve_valido (l.text.take 127) = true) (s : UeState) :
    chosen (repeating text) = some l.text ∧ cpsiStep (repeating text) s = ⟨l.info, true⟩ := by
  have hchosen : chosen (repeating text) = some l.text := by
    have hpass : passes (repeating text) 0 = true := by
      simp [passes, repeating, htext, strlcpy, hvalid]
    rw [chosen, List.range'_succ, List.find?_cons, hpass, ← htext]
    rfl
  exact ⟨hchosen, cpsiStep_valid_iff.mpr ⟨l.text, hchosen, hcut, l.parse_cut_behind hfits⟩⟩

/-- The state in front of the first report. -/
def noCell : UeState :=
  ⟨⟨0, 0, 0, 0, false⟩, false⟩

/-- A token. -/
def someToken : CStr :=
  ⟨ascii "pk.1a2b3c", by decide⟩

def lteText : CStr :=
  ⟨ascii "+CPSI: LTE,Online,334-20,0x232,43790378", by decide⟩

def gsmText : CStr :=
  ⟨ascii "+CPSI: GSM,Online,334-20,0x19,31925", by decide⟩

theorem request_right_lte :
    lteReport.RequestRight someToken.bytes (cpsiStep (repeating lteText) noCell) := by
  obtain ⟨hchosen, hstep⟩ := @accepted_repeating lteReport lteText (by decide) (by decide)
    (by decide) (by decide) noCell
  refine (request_right_iff lteReport hchosen (by rw [hstep]) someToken (by decide)).mpr
    (.inr (.inr ⟨rfl, by decide, .inr ?_, .inr ?_, .inr ?_⟩)) <;> decide

/-- **A cell of GSM.** The line is accepted, and what is posted says that the cell is one of
LTE. -/
theorem gsm_sent_as_lte :
    chosen (repeating gsmText) = some gsmReport.text ∧
      (cpsiStep (repeating gsmText) noCell).s_ue_valid = true ∧
      ascii "\x7b\"token\":\"pk.1a2b3c\",\"radio\":\"lte\",\"mcc\":334,\"mnc\":20,\"cells\":[\x7b\"lac\":25,\"cid\":31925\x7d],\"address\":2\x7d"
        ∈ payloadsSent someToken.bytes (cpsiStep (repeating gsmText) noCell)
          (fun _ _ => some unanswered) 1 1 ∧
      ¬ gsmReport.RequestRight someToken.bytes (cpsiStep (repeating gsmText) noCell) := by
  obtain ⟨hchosen, hstep⟩ := @accepted_repeating gsmReport gsmText (by decide) (by decide)
    (by decide) (by decide) noCell
  have hsent : ulPayload someToken.bytes gsmReport.info ∈ payloadsSent someToken.bytes
      ⟨gsmReport.info, true⟩ (fun _ _ => some unanswered) 1 1 :=
    ulPayload_sent rfl (by decide) (by decide) unanswered
  have hpayload : ulPayload someToken.bytes gsmReport.info
      = ascii "\x7b\"token\":\"pk.1a2b3c\",\"radio\":\"lte\",\"mcc\":334,\"mnc\":20,\"cells\":[\x7b\"lac\":25,\"cid\":31925\x7d],\"address\":2\x7d" := by
    decide +kernel
  rw [hstep]
  refine ⟨hchosen, rfl, hpayload ▸ hsent, fun hright => ?_⟩
  have hdescribed := (hright (fun _ _ => some unanswered) 1 1).1 _ hsent
  have hradio := ((described_ulPayload_iff gsmReport (by decide) rfl (by decide)).mp hdescribed).2.1
  exact absurd hradio (by decide)

end PppAmb
