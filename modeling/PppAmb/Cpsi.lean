import PppAmb.CNumber
import PppAmb.CSearch
import PppAmb.HttpClient

/-!
# The Cell the Modem Reports

The part of `main/modem_ppp.c` that asks the modem for its cell with `AT+CPSI?`, filters
the answer and parses it into `s_ue_info`.

`esp_modem_at` is not part of the repository: each attempt answers with an error code and
a text of any length, of which the array `out` keeps what fits.
-/

namespace PppAmb

/-- `modem_ue_info_t`. -/
structure ModemUeInfo where
  mcc : Int
  mnc : Int
  tac : ℕ
  cell_id : ℕ
  valid : Bool
  deriving DecidableEq, Repr

/-- The statics `s_ue_info` and `s_ue_valid`. -/
structure UeState where
  s_ue_info : ModemUeInfo
  s_ue_valid : Bool

/-- One `esp_modem_at(dce, "AT+CPSI?\r", ...)`. -/
structure AtAnswer where
  err : EspErr
  text : CStr

/-- `strstr(s, pattern) != NULL`. -/
def contains (s : Bytes) (pattern : Bytes) : Bool :=
  (strstr pattern s).isSome

/-- `cpsi_se_ve_valido`. -/
def cpsi_se_ve_valido (s : Bytes) : Bool :=
  !s.isEmpty && !contains s (ascii "NO SERVICE") && !contains s (ascii "000-00")
    && !contains s (ascii "BAND0")
    && !(contains s (ascii ",0,0,") || contains s (ascii ",00000000,"))

/-- The attempts of `cpsi_con_reintentos` from number `i` on, with the number that are
left, the last error and the contents of `out`. -/
def cpsiLoop (modem : ℕ → AtAnswer) (out_len : ℕ) : ℕ → ℕ → EspErr → Bytes → EspErr × Bytes
  | 0, _, last, out => (if last = ESP_OK then ESP_FAIL else last, strlcpy out out_len)
  | n + 1, i, _, _ =>
      let last := (modem i).err
      let out := strlcpy (modem i).text.bytes 256
      if last = ESP_OK ∧ cpsi_se_ve_valido out then (ESP_OK, strlcpy out out_len)
      else cpsiLoop modem out_len n (i + 1) last out

/-- `cpsi_con_reintentos`: the error code and `out_final`. -/
def cpsi_con_reintentos (modem : ℕ → AtAnswer) (out_len intentos : ℕ) : EspErr × Bytes :=
  cpsiLoop modem out_len intentos 0 ESP_FAIL []

/-- `trim_ws`. -/
def trim_ws (s : Bytes) : Bytes :=
  (s.dropWhile isspace).rdropWhile isspace

/-- The loop of `parse_cpsi_line` over the tokens from number `tokenId` on; `none` is
`return false`. -/
def cpsiTokens : ℕ → List Bytes → ModemUeInfo → Option ModemUeInfo
  | _, [], out => some out
  | tokenId, tok :: toks, out =>
      let tok := trim_ws tok
      if tokenId = 2 then
        match cutAt (ch '-') tok with
        | none => none
        | some (mcc, mnc) =>
            cpsiTokens (tokenId + 1) toks
              { out with mcc := atoi (trim_ws mcc), mnc := atoi (trim_ws mnc) }
      else if tokenId = 3 then
        cpsiTokens (tokenId + 1) toks { out with tac := strtoul tok }
      else if tokenId = 4 then some { out with cell_id := strtoul tok }
      else cpsiTokens (tokenId + 1) toks out

/-- What stands behind the first `+CPSI:`, or the whole text if there is none. -/
def afterPrefix (s : Bytes) : Bytes :=
  match strstr (ascii "+CPSI:") s with
  | some r => r.drop 6
  | none => s

/-- `parse_cpsi_line`: `none` is `false`. -/
def parse_cpsi_line (line_in : Bytes) : Option ModemUeInfo :=
  let buf := strlcpy line_in 256
  match cpsiTokens 0 (strtok_r (ch ',') (afterPrefix buf)) ⟨0, 0, 0, 0, false⟩ with
  | none => none
  | some out =>
      if out.mcc < 100 ∨ out.mcc > 999 then none
      else if out.mnc < 0 ∨ out.mnc > 999 then none
      else some { out with valid := true }

/-- The CPSI step of `modem_ppp_start_blocking`. -/
def cpsiStep (modem : ℕ → AtAnswer) (s : UeState) : UeState :=
  let (cpsi_ok, cpsi) := cpsi_con_reintentos modem 128 3
  if cpsi_ok = ESP_OK then
    match parse_cpsi_line cpsi with
    | some info =>
        if cpsi_se_ve_valido cpsi then ⟨info, true⟩ else { s with s_ue_valid := false }
    | none => { s with s_ue_valid := false }
  else { s with s_ue_valid := false }

end PppAmb
