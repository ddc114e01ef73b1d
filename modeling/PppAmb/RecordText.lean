import Mathlib.Algebra.BigOperators.Ring.Finset
import Mathlib.Algebra.Order.BigOperators.Group.List
import PppAmb.CityText
import PppAmb.JsonMeaning
import PppAmb.JsonUnique
import PppAmb.Records
import PppAmb.Sampling
import PppAmb.Sensors

/-!
# The Text of a Record

Five samples are averaged and printed into an array of 384 bytes, in one of three layouts. This
module bounds every number from the raw words of the sensors through both averagings, and reads
the text back.

## Main results

* `produced_bounded`: the ranges of what `sensors_read` returns.
* `record_right`, `records_right_run`: every record fits into its array, and means the averages
  and the texts it was made from; the mean of CO2 is cut, not rounded.
* `co2_not_rounded`: a mean of 400.8 ppm is sent as 400.
-/

namespace PppAmb

/-! ### Samples -/

/-- A sample that `sensors_read` returns from some bus, with exact arithmetic. -/
def Produced (d : SensorData) : Prop :=
  ∃ (B : I2c) (out : Option SensorData) (k k' : ℕ),
    sensors_read B .exact out k = (ESP_OK, some d, k')

/-- The ranges that the raw words leave. -/
structure SensorData.Bounded (d : SensorData) : Prop where
  pm1p0 : 0 ≤ d.pm1p0 ∧ d.pm1p0 ≤ 65535 / 10
  pm2p5 : 0 ≤ d.pm2p5 ∧ d.pm2p5 ≤ 65535 / 10
  pm4p0 : 0 ≤ d.pm4p0 ∧ d.pm4p0 ≤ 65535 / 10
  pm10p0 : 0 ≤ d.pm10p0 ∧ d.pm10p0 ≤ 65535 / 10
  voc : 0 ≤ d.voc ∧ d.voc ≤ 65535 / 10
  nox : 0 ≤ d.nox ∧ d.nox ≤ 65535 / 10
  avg_temp : -45 / 2 ≤ d.avg_temp ∧ d.avg_temp ≤ (130 + 65535 / 200) / 2
  avg_hum : 0 ≤ d.avg_hum ∧ d.avg_hum ≤ (100 + 65535 / 100) / 2

/-- **The ranges of a sample**, whatever the bytes on the bus are. -/
theorem produced_bounded {d : SensorData} (h : Produced d) : d.Bounded := by
  obtain ⟨B, out, k, k', hread⟩ := h
  obtain ⟨-, j, -, -, hdata, -⟩ := sensors_read_ok_iff.mp hread
  obtain rfl : d = B.measured .exact k j := Option.some.inj hdata
  have hword : ∀ w : UInt16, (0 : ℚ) ≤ w.toNat ∧ (w.toNat : ℚ) ≤ 65535 := by
    intro w
    have hlt := w.toNat_lt
    exact ⟨Nat.cast_nonneg _, by exact_mod_cast (by omega : w.toNat ≤ 65535)⟩
  have htenth : ∀ w : UInt16, (0 : ℚ) ≤ w.toNat / 10 ∧ (w.toNat : ℚ) / 10 ≤ 65535 / 10 := by
    intro w
    obtain ⟨hlow, hhigh⟩ := hword w
    constructor <;> linarith
  refine ⟨htenth _, htenth _, htenth _, htenth _, htenth _, htenth _, ?_, ?_⟩
  · obtain ⟨hlow, hhigh⟩ := hword ((B.reply (k + 1) .scd4x 3).word 1)
    obtain ⟨hlow', hhigh'⟩ := hword ((B.reply (k + 2 * j + 5) .sen5x 8).word 5)
    simp only [I2c.measured, SensorData.of, Scd4x.ofReply, Sen5x.ofReply, Arith.exact, id]
    constructor <;> linarith
  · obtain ⟨hlow, hhigh⟩ := hword ((B.reply (k + 1) .scd4x 3).word 2)
    obtain ⟨hlow', hhigh'⟩ := hword ((B.reply (k + 2 * j + 5) .sen5x 8).word 4)
    simp only [I2c.measured, SensorData.of, Scd4x.ofReply, Sen5x.ofReply, Arith.exact, id]
    constructor <;> linarith

/-! ### Averages -/

/-- The mean of a measurement. -/
def mean (samples : List SensorData) (f : SensorData → ℚ) : ℚ :=
  (samples.map f).sum / samples.length

/-- A mean lies within the range of the samples. -/
theorem mean_range {samples : List SensorData} {f : SensorData → ℚ} {low high : ℚ}
    (hne : samples ≠ []) (h : ∀ d ∈ samples, low ≤ f d ∧ f d ≤ high) :
    low ≤ mean samples f ∧ mean samples f ≤ high := by
  have hpos : (0 : ℚ) < samples.length := by exact_mod_cast List.length_pos_iff.mpr hne
  have hhigh : (samples.map f).sum ≤ (samples.map f).length • high := by
    refine List.sum_le_card_nsmul _ _ fun x hx => ?_
    obtain ⟨d, hd, rfl⟩ := List.mem_map.mp hx
    exact (h d hd).2
  have hlow : (samples.map f).length • low ≤ (samples.map f).sum := by
    refine List.card_nsmul_le_sum _ _ fun x hx => ?_
    obtain ⟨d, hd, rfl⟩ := List.mem_map.mp hx
    exact (h d hd).1
  rw [List.length_map, nsmul_eq_mul] at hlow hhigh
  rw [mean, le_div_iff₀ hpos, div_le_iff₀ hpos]
  constructor <;> linarith

/-- The accumulators are empty, as before the loop and behind every record. -/
structure Task.Emptied (s : Task) : Prop where
  sample_count : s.sample_count = 0
  sums : s.sums = .zero
  sum_co2 : s.sum_co2 = 0

theorem start_emptied (db : Store Bytes Bytes) (now_us : Int) : (Task.start db now_us).Emptied :=
  ⟨rfl, rfl, rfl⟩

/-- What the accumulators hold after at most five samples. -/
theorem accumulated {s : Task} (hs : s.Emptied) {samples : List SensorData}
    (hlen : samples.length ≤ 5) :
    (samples.foldl (Task.sample .exact) s).sample_count = samples.length ∧
      (samples.foldl (Task.sample .exact) s).sums = total samples ∧
      (samples.foldl (Task.sample .exact) s).sum_co2.toNat = totalCo2 samples := by
  induction samples using List.reverseRecOn with
  | nil => exact ⟨hs.sample_count, hs.sums, by rw [List.foldl_nil, hs.sum_co2]; rfl⟩
  | append_singleton samples d ih =>
      rw [List.length_append, List.length_singleton] at hlen
      obtain ⟨hcount, hsums, hco2⟩ := ih (by omega)
      rw [List.foldl_concat]
      refine ⟨?_, ?_, ?_⟩
      · rw [Task.sample, hcount, List.length_append, List.length_singleton]
      · rw [Task.sample, hsums, total_snoc]
      · rw [totalCo2_snoc, ← hco2]
        exact toNat_add_co2 hco2 (by omega) d

/-- The averages of five samples. -/
theorem averagesOf_five {c : Setting} (hexact : c.arith = .exact) {s : Task} (hs : s.Emptied)
    {samples : List SensorData} (hfive : samples.length = 5) :
    AveragesOf samples ((samples.foldl (Task.sample c.arith) s).avg c.arith) := by
  obtain ⟨hcount, hsums, hco2⟩ := accumulated hs hfive.le
  rw [← hexact] at hcount hsums hco2
  exact averagesOf_avg hexact hcount hfive hsums hco2

/-- The averages of samples in their ranges are in the same ranges. -/
theorem averages_bounded {samples : List SensorData} {avg : SensorData} (hne : samples ≠ [])
    (havg : AveragesOf samples avg) (h : ∀ d ∈ samples, d.Bounded) : avg.Bounded where
  pm1p0 := havg.pm1p0 ▸ mean_range hne fun d hd => (h d hd).pm1p0
  pm2p5 := havg.pm2p5 ▸ mean_range hne fun d hd => (h d hd).pm2p5
  pm4p0 := havg.pm4p0 ▸ mean_range hne fun d hd => (h d hd).pm4p0
  pm10p0 := havg.pm10p0 ▸ mean_range hne fun d hd => (h d hd).pm10p0
  voc := havg.voc ▸ mean_range hne fun d hd => (h d hd).voc
  nox := havg.nox ▸ mean_range hne fun d hd => (h d hd).nox
  avg_temp := havg.avg_temp ▸ mean_range hne fun d hd => (h d hd).avg_temp
  avg_hum := havg.avg_hum ▸ mean_range hne fun d hd => (h d hd).avg_hum

/-! ### Dates and times -/

theorem plainAscii_of_digit {c : UInt8} (h : isDigitOf 10 c = true) : isPlainAscii c = true := by
  have hall : ∀ d < 10, isPlainAscii (UInt8.ofNat (48 + d)) = true := by decide
  obtain ⟨hlow, hhigh⟩ := isDigitOf_ten h
  have hc : c = UInt8.ofNat (48 + (c.toNat - 48)) := by
    rw [Nat.add_sub_cancel' hlow, UInt8.ofNat_toNat]
  rw [hc]
  exact hall _ (by omega)

theorem hora_eq (tm : Tm) : tm.hora = twoDigits tm.hour ++ ch ':' ::
    (twoDigits tm.min ++ ch ':' :: twoDigits tm.sec) := by
  rfl

/-- A year that is not negative is printed without a sign. -/
theorem fecha_unsigned {tm : Tm} (h : 0 ≤ tm.year) : tm.fecha = twoDigits tm.mday ++ ch '-' ::
    (twoDigits tm.mon ++ ch '-' :: unsigned tm.year.toNat) := by
  obtain ⟨n, hn⟩ := Int.eq_ofNat_of_zero_le h
  rw [fecha_eq, hn]
  rfl

theorem plainAscii_twoDigits (n : ℕ) : ∀ c ∈ twoDigits n, isPlainAscii c = true := by
  simp [twoDigits, plainAscii_of_digit (isDigitOf_digit _)]

theorem plainAscii_hora (tm : Tm) : ∀ c ∈ tm.hora, isPlainAscii c = true := by
  have hcolon : isPlainAscii (ch ':') = true := rfl
  intro c hc
  simp only [hora_eq, List.mem_append, List.mem_cons] at hc
  rcases hc with hc | rfl | hc | rfl | hc
  · exact plainAscii_twoDigits _ c hc
  · exact hcolon
  · exact plainAscii_twoDigits _ c hc
  · exact hcolon
  · exact plainAscii_twoDigits _ c hc

theorem plainAscii_fecha {tm : Tm} (h : 0 ≤ tm.year) : ∀ c ∈ tm.fecha, isPlainAscii c = true := by
  have hdash : isPlainAscii (ch '-') = true := rfl
  intro c hc
  simp only [fecha_unsigned h, List.mem_append, List.mem_cons] at hc
  rcases hc with hc | rfl | hc | rfl | hc
  · exact plainAscii_twoDigits _ c hc
  · exact hdash
  · exact plainAscii_twoDigits _ c hc
  · exact hdash
  · exact plainAscii_of_digit (unsigned_digits _ c hc)

theorem length_hora (tm : Tm) : tm.hora.length = 8 := by
  rw [hora_eq]
  rfl

theorem length_fecha_le {tm : Tm} (hlow : 0 ≤ tm.year) (hhigh : tm.year ≤ 9999) :
    tm.fecha.length ≤ 10 := by
  have hyear : (unsigned tm.year.toNat).length ≤ 4 := length_unsigned_le (by decide) (by omega)
  simp only [fecha_unsigned hlow, twoDigits, List.length_append, List.length_cons, List.length_nil]
  omega

/-! ### What a record says -/

/-- What the members of a record have to mean: the means of the samples, rounded to the decimals
that are printed, and the given texts. What is to be done with the mean of CO2, which is printed
as an integer, is left open. -/
def Record.Says (co2Of : ℚ → ℚ → Prop) (c : Setting) (r : Record) (samples : List SensorData) :
    Field → Data → Prop
  | .pm1p0, .number v => RoundedTo 2 (mean samples SensorData.pm1p0) v
  | .pm2p5, .number v => RoundedTo 2 (mean samples SensorData.pm2p5) v
  | .pm4p0, .number v => RoundedTo 2 (mean samples SensorData.pm4p0) v
  | .pm10p0, .number v => RoundedTo 2 (mean samples SensorData.pm10p0) v
  | .voc, .number v => RoundedTo 1 (mean samples SensorData.voc) v
  | .nox, .number v => RoundedTo 1 (mean samples SensorData.nox) v
  | .cTe, .number v => RoundedTo 2 (mean samples SensorData.avg_temp) v
  | .cHu, .number v => RoundedTo 2 (mean samples SensorData.avg_hum) v
  | .co2, .number v => co2Of (mean samples fun d => d.co2.toNat) v
  | .fecha, .string s => s = r.tm.fecha
  | .inicio, .string s => s = c.inicio_str
  | .ciudad, .string s => s = c.city_state.bytes
  | .hora, .string s => s = r.tm.hora
  | .id, .string s => s = c.device_id.bytes
  | _, _ => False

/-- The labels of the station are UTF-8, as JSON wants its strings. -/
def Setting.LabelsValid (c : Setting) : Prop :=
  isStringBody c.city_state.bytes = true ∧ isStringBody c.device_id.bytes = true

/-- The array holds the whole record, and the record is the text of an object with the members
of its layout, in their order, which mean what they have to. It is valid JSON if the labels of the
station are. -/
structure Record.Right (co2Of : ℚ → ℚ → Prop) (c : Setting) (r : Record)
    (samples : List SensorData) : Prop where
  fits : (r.whole c).length < 384
  means : ∃ (v : Json) (ds : List (Bytes × Data)), v.print = r.json c ∧
    v.data = some (.object ds) ∧
    List.Forall₂ (fun f d => d.1 = f.name ∧ r.Says co2Of c samples f d.2) r.fields ds ∧
    (c.LabelsValid → v.wellFormed = true)

/-- The integer part of a mean. -/
def IntegerPart (q v : ℚ) : Prop :=
  v = ⌊q⌋

section Members

variable {co2Of : ℚ → ℚ → Prop} {c : Setting} {r : Record} {samples : List SensorData}

/-- A value that means what it has to. -/
def Record.Shown (co2Of : ℚ → ℚ → Prop) (c : Setting) (r : Record) (samples : List SensorData)
    (f : Field) : Prop :=
  ∃ (v : Json) (d : Data), v.print = r.value c f ∧ v.data = some d ∧
    r.Says co2Of c samples f d ∧ (c.LabelsValid → v.wellFormed = true)

theorem value_of_measure {f : Field} (hf : f ∈ measures) : r.value c f = r.text c f := by
  simp [Record.value, hf]

theorem value_of_label {f : Field} (hf : f ∉ measures) :
    r.value c f = ch '"' :: (r.text c f ++ [ch '"']) := by
  simp [Record.value, hf, ascii, ch]

/-- A mean that is printed with some decimals is shown. -/
theorem shown_fixed {f : Field} {digits : ℕ} {q m : ℚ} (hdigits : digits ≠ 0)
    (hf : f ∈ measures) (htext : r.text c f = fixed digits q) (hq : q = m)
    (hshows : ∀ v, RoundedTo digits m v → r.Says co2Of c samples f (.number v)) :
    r.Shown co2Of c samples f := by
  subst hq
  refine ⟨.number (fixedText digits q), .number (fixedText digits q).value, ?_, rfl,
    hshows _ (rounded_fixedText digits q), fun _ => wellFormed_fixedText digits q hdigits⟩
  rw [Json.print, print_fixedText, value_of_measure hf, htext]

/-- A label is shown if it is plain. -/
theorem shown_string {f : Field} {s : Bytes} (hf : f ∉ measures) (htext : r.text c f = s)
    (hplain : ∀ b ∈ s, isPlain b = true) (hshows : r.Says co2Of c samples f (.string s))
    (hvalid : c.LabelsValid → isStringBody s = true) : r.Shown co2Of c samples f := by
  have hliteral : s.all isLiteral = true := by
    rw [List.all_eq_true]
    intro b hb
    have hb' := hplain b hb
    simp only [isPlain, Bool.and_eq_true, bne_iff_ne] at hb'
    exact isLiteral_iff.mpr ⟨hb'.1.2, hb'.2⟩
  refine ⟨.string ⟨s, isRawString_of_plain hplain⟩, .string s, ?_, ?_, hshows, hvalid⟩
  · rw [Json.print, value_of_label hf, htext]
  · exact congrArg (Option.map Data.string) (decodeString_literal hliteral)

theorem shown_plainAscii {f : Field} {s : Bytes} (hf : f ∉ measures) (htext : r.text c f = s)
    (hplain : ∀ b ∈ s, isPlainAscii b = true) (hshows : r.Says co2Of c samples f (.string s)) :
    r.Shown co2Of c samples f := by
  refine shown_string hf htext (fun b hb => ?_) hshows fun _ => isStringBody_of_plainAscii hplain
  have hb' := hplain b hb
  rw [isPlainAscii, Bool.and_eq_true] at hb'
  exact hb'.1

/-- Members that are shown make up an object. -/
theorem exists_shown_members {fs : List Field} (h : ∀ f ∈ fs, r.Shown co2Of c samples f) :
    ∃ (ms : List (StringText × Json)) (ds : List (Bytes × Data)),
      Json.printMembers ms = fs.map (fun f => (f.name, r.value c f)) ∧
      Json.dataMembers ms = some ds ∧
      List.Forall₂ (fun f d => d.1 = f.name ∧ r.Says co2Of c samples f d.2) fs ds ∧
      (c.LabelsValid → Json.wellFormedMembers ms = true) := by
  induction fs with
  | nil => exact ⟨[], [], rfl, rfl, .nil, fun _ => rfl⟩
  | cons f fs ih =>
      obtain ⟨⟨v, d, hprint, hdata, hshows, hvalid⟩, hrest⟩ := List.forall_mem_cons.mp h
      obtain ⟨ms, ds, hprints, hds, hall, hvalids⟩ := ih hrest
      have hname : decodeString f.name = some f.name := by
        cases f <;> rfl
      refine ⟨(⟨f.name, isRawString_of_isStringBody f.name_valid⟩, v) :: ms, (f.name, d) :: ds,
        ?_, ?_, .cons ⟨rfl, hshows⟩ hall, fun hlabels => ?_⟩
      · rw [Json.printMembers, hprints, hprint]
        rfl
      · exact Json.dataMembers_cons_eq_some.mpr ⟨_, _, _, hname, hdata, hds, rfl⟩
      · exact Json.wellFormedMembers_cons.mpr ⟨f.name_valid, hvalid hlabels, hvalids hlabels⟩

/-- A record that fits and whose members are shown is right. -/
theorem right_of_shown (hfits : (r.whole c).length < 384)
    (h : ∀ f ∈ r.fields, r.Shown co2Of c samples f) : r.Right co2Of c samples := by
  obtain ⟨ms, ds, hprint, hdata, hall, hvalid⟩ := exists_shown_members h
  refine ⟨hfits, .object ms, ds, ?_, congrArg (Option.map Data.object) hdata, hall, hvalid⟩
  rw [Json.print, hprint, ← Record.whole_eq, Record.json_eq_whole c r hfits]

end Members

/-! ### How long a record is -/

/-- The labels of the station: short, and without quotes, backslashes and control bytes. -/
structure Setting.Labeled (c : Setting) : Prop where
  city : c.city_state.bytes.length ≤ 63
  cityPlain : ∀ b ∈ c.city_state.bytes, isPlain b = true
  id : c.device_id.bytes.length ≤ 111
  idPlain : ∀ b ∈ c.device_id.bytes, isPlain b = true

/-- The greatest length of the text of a member. -/
def Field.width : Field → ℕ
  | .pm1p0 | .pm2p5 | .pm4p0 | .pm10p0 => 7
  | .voc | .nox | .cTe | .cHu => 6
  | .co2 => 5
  | .fecha => 10
  | .inicio | .hora => 8
  | .ciudad => 63
  | .id => 111

/-- The greatest length of a member with the comma or bracket behind it. -/
def Field.memberWidth (f : Field) : ℕ :=
  f.name.length + f.width + (if f ∈ measures then 4 else 6)

section Length

variable {c : Setting} {r : Record}

/-- Every layout fits, the first one to the last byte. -/
theorem memberWidths_le (layout : Layout) :
    ((measures ++ layout.labels).map Field.memberWidth).sum + 1 ≤ 383 := by
  cases layout <;> decide

theorem length_whole_le (h : ∀ f, (r.text c f).length ≤ f.width) : (r.whole c).length < 384 := by
  have hmember : ∀ f, (memberText (f.name, r.value c f)).length + 1 ≤ f.memberWidth := by
    intro f
    have hf := h f
    have hquote : (ascii "\"").length = 1 := rfl
    simp only [memberText, Record.value, Field.memberWidth, List.length_cons, List.length_append]
    split
    · simp only [List.length_nil]
      omega
    · omega
  have hsum := memberWidths_le r.layout
  have hle : (r.fields.map fun f => (memberText (f.name, r.value c f)).length + 1).sum
      ≤ (r.fields.map Field.memberWidth).sum := List.sum_le_sum fun f _ => hmember f
  rw [Record.whole_eq, objectText, length_bracketed _ _ (by simp [Record.fields, measures]),
    List.map_map, List.map_map]
  rw [Record.fields] at hle ⊢
  exact Nat.lt_succ_of_le (le_trans (Nat.succ_le_succ hle) hsum)

/-- A number that is not negative is printed without a sign. -/
theorem length_fixed_nonneg {digits k : ℕ} {q : ℚ} (hk : k ≠ 0) (hq : 0 ≤ q)
    (h : q * 10 ^ digits ≤ (10 ^ (k + digits) - 1 : ℕ)) :
    (fixed digits q).length ≤ k + 1 + digits := by
  have hlength := length_fixed_le digits q hk (by rwa [abs_of_nonneg hq])
  rw [if_neg (not_lt.mpr hq)] at hlength
  omega

/-- A temperature takes three digits in front of the point, or a sign and two. -/
theorem length_temperature {q : ℚ} (hlow : -45 / 2 ≤ q) (hhigh : q ≤ (130 + 65535 / 200) / 2) :
    (fixed 2 q).length ≤ 6 := by
  by_cases hq : 0 ≤ q
  · exact length_fixed_nonneg (k := 3) (by decide) hq (by norm_num; linarith)
  · rw [not_le] at hq
    have hlength := length_fixed_le 2 q (k := 2) (by decide)
      (by rw [abs_of_neg hq]; norm_num; linarith)
    rwa [if_pos hq] at hlength

/-- **Widths.** No member is longer than its width. -/
theorem length_text_le {start : Tm} (hc : c.Labeled) (hinicio : c.inicio_str = start.hora)
    (havg : r.avg.Bounded) (hlow : 0 ≤ r.tm.year) (hhigh : r.tm.year ≤ 9999) (f : Field) :
    (r.text c f).length ≤ f.width := by
  have hpm : ∀ {q : ℚ}, 0 ≤ q ∧ q ≤ 65535 / 10 → (fixed 2 q).length ≤ 7 := fun h =>
    length_fixed_nonneg (k := 4) (by decide) h.1 (by norm_num; linarith [h.2])
  have hindex : ∀ {q : ℚ}, 0 ≤ q ∧ q ≤ 65535 / 10 → (fixed 1 q).length ≤ 6 := fun h =>
    length_fixed_nonneg (k := 4) (by decide) h.1 (by norm_num; linarith [h.2])
  cases f with
  | pm1p0 => exact hpm havg.pm1p0
  | pm2p5 => exact hpm havg.pm2p5
  | pm4p0 => exact hpm havg.pm4p0
  | pm10p0 => exact hpm havg.pm10p0
  | voc => exact hindex havg.voc
  | nox => exact hindex havg.nox
  | cTe => exact length_temperature havg.avg_temp.1 havg.avg_temp.2
  | cHu =>
      obtain ⟨hnonneg, hle⟩ := havg.avg_hum
      exact length_fixed_nonneg (k := 3) (by decide) hnonneg (by norm_num; linarith)
  | co2 =>
      have hlt := r.avg.co2.toNat_lt
      exact length_unsigned_le (k := 5) (by decide) (by omega)
  | fecha => exact length_fecha_le hlow hhigh
  | inicio =>
      rw [Record.text, hinicio, length_hora]
      exact le_rfl
  | ciudad => exact hc.city
  | hora => exact (length_hora r.tm).le
  | id => exact hc.id

end Length

/-! ### Every record -/

/-- The mean of CO2 is cut to an integer. -/
theorem co2_integerPart {samples : List SensorData} {avg : SensorData}
    (havg : AveragesOf samples avg) :
    IntegerPart (mean samples fun d => d.co2.toNat) avg.co2.toNat := by
  have hsum : (samples.map fun d => (d.co2.toNat : ℚ)).sum = totalCo2 samples := by
    rw [totalCo2, Nat.cast_list_sum, List.map_map]
    rfl
  rw [IntegerPart, mean, hsum, havg.co2, Rat.floor_natCast_div_natCast]
  rfl

theorem shown_of_averages {c : Setting} {r : Record} {samples : List SensorData} {start : Tm}
    (hc : c.Labeled) (hinicio : c.inicio_str = start.hora) (havg : AveragesOf samples r.avg)
    (hyear : 0 ≤ r.tm.year) (f : Field) : r.Shown IntegerPart c samples f := by
  cases f with
  | pm1p0 => exact shown_fixed (by decide) (by decide) rfl havg.pm1p0 fun _ h => h
  | pm2p5 => exact shown_fixed (by decide) (by decide) rfl havg.pm2p5 fun _ h => h
  | pm4p0 => exact shown_fixed (by decide) (by decide) rfl havg.pm4p0 fun _ h => h
  | pm10p0 => exact shown_fixed (by decide) (by decide) rfl havg.pm10p0 fun _ h => h
  | voc => exact shown_fixed (by decide) (by decide) rfl havg.voc fun _ h => h
  | nox => exact shown_fixed (by decide) (by decide) rfl havg.nox fun _ h => h
  | cTe => exact shown_fixed (by decide) (by decide) rfl havg.avg_temp fun _ h => h
  | cHu => exact shown_fixed (by decide) (by decide) rfl havg.avg_hum fun _ h => h
  | co2 =>
      refine ⟨.number (natText r.avg.co2.toNat), .number (natText r.avg.co2.toNat).value, ?_, rfl,
        ?_, fun _ => wellFormed_natText _⟩
      · rw [Json.print, print_natText, value_of_measure (by decide)]
        rfl
      · rw [value_natText]
        exact co2_integerPart havg
  | fecha => exact shown_plainAscii (by decide) rfl (plainAscii_fecha hyear) rfl
  | inicio => exact shown_plainAscii (by decide) hinicio (plainAscii_hora start) hinicio.symm
  | ciudad => exact shown_string (by decide) rfl hc.cityPlain rfl fun h => h.1
  | hora => exact shown_plainAscii (by decide) rfl (plainAscii_hora r.tm) rfl
  | id => exact shown_string (by decide) rfl hc.idPlain rfl fun h => h.2

theorem exists_left_of_forall₂ {α β : Type} {R : α → β → Prop} {l : List α} {m : List β} {b : β}
    (h : List.Forall₂ R l m) (hb : b ∈ m) : ∃ a ∈ l, R a b := by
  induction h with
  | nil => exact absurd hb (by simp)
  | cons hfirst hrest ih =>
      rcases List.mem_cons.mp hb with rfl | hb
      · exact ⟨_, List.mem_cons_self, hfirst⟩
      · obtain ⟨a, ha, hab⟩ := ih hb
        exact ⟨a, List.mem_cons_of_mem _ ha, hab⟩

/-- The record of some averages in their ranges. -/
theorem right_of_averages {c : Setting} {r : Record} {samples : List SensorData} {start : Tm}
    (hc : c.Labeled) (hinicio : c.inicio_str = start.hora) (havg : AveragesOf samples r.avg)
    (hbounded : r.avg.Bounded) (hlow : 0 ≤ r.tm.year) (hhigh : r.tm.year ≤ 9999) :
    r.Right IntegerPart c samples :=
  right_of_shown (length_whole_le (length_text_le hc hinicio hbounded hlow hhigh))
    fun f _ => shown_of_averages hc hinicio havg hlow f

/-- **Records.** Whatever the sensors send, five samples make a record that fits into its array in
every layout, at every time with a year of four digits and for all short plain labels of the
station. It means the averages of the samples and the given texts; the mean of CO2 is cut to an
integer. -/
theorem record_right {c : Setting} (hexact : c.arith = .exact) (hc : c.Labeled) {start : Tm}
    (hinicio : c.inicio_str = start.hora) {s : Task} (hs : s.Emptied) {samples : List SensorData}
    (hfive : samples.length = 5) (hsamples : ∀ d ∈ samples, Produced d) (layout : Layout) {tm : Tm}
    (hlow : 1000 ≤ tm.year) (hhigh : tm.year ≤ 9999) :
    Record.Right IntegerPart c
      ⟨layout, (samples.foldl (Task.sample c.arith) s).avg c.arith, tm⟩ samples := by
  have hne : samples ≠ [] := List.ne_nil_of_length_eq_add_one hfive
  have havg := averagesOf_five hexact hs hfive
  have hbounded := averages_bounded hne havg fun d hd => produced_bounded (hsamples d hd)
  exact right_of_averages hc hinicio havg hbounded (by simp only; omega) hhigh

/-- **The records of a run.** Every record that is ever sent is made of five samples, fits into
its array and says what it has to, as long as the clock shows years of at most four digits. -/
theorem records_right_run {c : Setting} (hexact : c.arith = .exact) (hc : c.Labeled) {start : Tm}
    (hinicio : c.inicio_str = start.hora) (db : Store Bytes Bytes) (now_us : Int)
    {ticks : List Tick} (hread : ∀ d ∈ ticks.filterMap Tick.read, Produced d)
    (hyear : ∀ t ∈ ticks, 0 ≤ (localtime_r UTC6 t.now_epoch.toInt).year ∧
      (localtime_r UTC6 t.now_epoch.toInt).year ≤ 9999) :
    ∀ b ∈ ((Task.start db now_us).run c ticks).history, ∃ samples : List SensorData,
      samples.length = 5 ∧ samples ⊆ ticks.filterMap Tick.read ∧
        b.record.Right IntegerPart c samples := by
  intro b hb
  obtain ⟨chunks, pending, h⟩ := sampled_run hexact db now_us ticks
  obtain ⟨samples, hmem, havg⟩ := exists_left_of_forall₂ h.sent hb
  have hfive := h.five samples hmem
  have hsub : samples ⊆ ticks.filterMap Tick.read := by
    intro d hd
    rw [h.split]
    exact List.mem_append_left _ (List.mem_flatten.mpr ⟨samples, hmem, hd⟩)
  have hne : samples ≠ [] := List.ne_nil_of_length_eq_add_one hfive
  have hbounded := averages_bounded hne havg fun d hd => produced_bounded (hread d (hsub hd))
  obtain ⟨t, ht, htm⟩ := batch_times c db now_us ticks b hb
  obtain ⟨hlow, hhigh⟩ := hyear t ht
  rw [← htm] at hlow hhigh
  exact ⟨samples, hfive, hsub, right_of_averages hc hinicio havg hbounded hlow hhigh⟩

/-! ### A mean that is cut -/

/-- Two relations along the same lists. -/
theorem exists_of_forall₂ {α β : Type} {R S : α → β → Prop} {l : List α} {m : List β} {a : α}
    (hR : List.Forall₂ R l m) (hS : List.Forall₂ S l m) (ha : a ∈ l) : ∃ b, R a b ∧ S a b := by
  induction hR with
  | nil => exact absurd ha (by simp)
  | cons hfirst hrest ih =>
      cases hS with
      | cons hfirst' hrest' =>
          rcases List.mem_cons.mp ha with rfl | ha
          · exact ⟨_, hfirst, hfirst'⟩
          · exact ih hrest' ha

/-- What a record says of CO2 is the integer part of the mean, however it is read. -/
theorem co2_of_right {co2Of : ℚ → ℚ → Prop} {c : Setting} {r : Record}
    {samples : List SensorData} (hlabels : c.LabelsValid) (hcut : r.Right IntegerPart c samples)
    (h : r.Right co2Of c samples) :
    co2Of (mean samples fun d => d.co2.toNat) ⌊mean samples fun d => d.co2.toNat⌋ := by
  obtain ⟨v, ds, hprint, hdata, hshows, hvalid⟩ := hcut.means
  obtain ⟨v', ds', hprint', hdata', hshows', hvalid'⟩ := h.means
  obtain rfl : v = v' :=
    Json.eq_of_print_eq (hvalid hlabels) (hvalid' hlabels) (hprint.trans hprint'.symm)
  obtain rfl : ds = ds' := Data.object.inj (Option.some.inj (hdata.symm.trans hdata'))
  obtain ⟨⟨name, d⟩, ⟨-, hd⟩, -, hd'⟩ := exists_of_forall₂ hshows hshows'
    (a := .co2) (by simp [Record.fields, measures])
  cases d with
  | number q =>
      obtain rfl : q = _ := hd
      exact hd'
  | null => exact absurd hd (by simp [Record.Says])
  | boolean b => exact absurd hd (by simp [Record.Says])
  | string s => exact absurd hd (by simp [Record.Says])
  | array vs => exact absurd hd (by simp [Record.Says])
  | object ms => exact absurd hd (by simp [Record.Says])

/-- The SCD4x answers with 256 ppm and some more, the SEN5x with zeros. -/
def quietAir (more : UInt8) : I2c where
  transmit _ _ _ := ESP_OK
  receive k device :=
    match device with
    | .scd4x => (ESP_OK, fun i => if i = 0 then 1 else if i = 1 then more else 0)
    | .sen5x => zeroedScd4x.receive k .sen5x

/-- What `sensors_read` makes of it. -/
def quietSample (more : UInt8) : SensorData :=
  (quietAir more).measured .exact 0 0

theorem quietSample_produced (more : UInt8) : Produced (quietSample more) := by
  have horder : (quietAir more).InOrder 0 0 :=
    ⟨⟨rfl, rfl⟩, zeroedScd4x_inOrder.ready, zeroedScd4x_inOrder.values,
      zeroedScd4x_inOrder.checked⟩
  exact ⟨quietAir more, some (quietSample more), 0, 6,
    sensors_read_ok_iff.mpr ⟨rfl, 0, by omega, horder, rfl, rfl⟩⟩

/-- One sample of 400 ppm and four of 401 ppm. -/
def quietSamples : List SensorData :=
  [quietSample 144, quietSample 145, quietSample 145, quietSample 145, quietSample 145]

theorem quietSamples_produced : ∀ d ∈ quietSamples, Produced d := by
  simp [quietSamples, quietSample_produced]

/-- A station with short labels. -/
def quietStation : Setting :=
  ⟨.exact, .of (ascii "Puebla-Mexico"), .of (ascii "AMB-01"), inicio_str 1758000000⟩

theorem quietStation_labeled : quietStation.Labeled :=
  ⟨by decide, by decide +kernel, by decide, by decide +kernel⟩

/-- The first record of the quiet samples. -/
theorem record_right_quiet : Record.Right IntegerPart quietStation
    ⟨.first, (quietSamples.foldl (Task.sample .exact) (Task.start ⟨[], .nil⟩ 0)).avg .exact,
      localtime_r UTC6 1758001500⟩ quietSamples :=
  record_right (c := quietStation) rfl quietStation_labeled rfl (start_emptied ⟨[], .nil⟩ 0) rfl
    quietSamples_produced .first (by decide) (by decide)

/-- **A mean that is not rounded.** The mean of the quiet samples is 400.8 ppm, but the record
says 400. -/
theorem co2_not_rounded :
    ¬ ∀ (c : Setting) (start tm : Tm) (s : Task) (samples : List SensorData) (layout : Layout),
      c.arith = .exact → c.Labeled → c.inicio_str = start.hora → s.Emptied →
      samples.length = 5 → (∀ d ∈ samples, Produced d) → 1000 ≤ tm.year → tm.year ≤ 9999 →
      Record.Right (RoundedTo 0) c
        ⟨layout, (samples.foldl (Task.sample c.arith) s).avg c.arith, tm⟩ samples := by
  intro h
  have hs := start_emptied ⟨[], .nil⟩ 0
  have hright := h quietStation _ (localtime_r UTC6 1758001500) (Task.start ⟨[], .nil⟩ 0) quietSamples
    .first rfl quietStation_labeled rfl hs rfl quietSamples_produced (by decide) (by decide)
  have havg := averagesOf_five (c := quietStation) rfl hs (show quietSamples.length = 5 from rfl)
  have hbounded := averages_bounded (by simp [quietSamples]) havg
    fun d hd => produced_bounded (quietSamples_produced d hd)
  have hcut := right_of_averages (r := ⟨.first, _, localtime_r UTC6 1758001500⟩)
    quietStation_labeled rfl havg hbounded (by decide) (by decide)
  have hco2 := co2_of_right ⟨by decide, by decide⟩ hcut hright
  have hmean : (mean quietSamples fun d => d.co2.toNat) = 2004 / 5 := by
    have h400 : (quietSample 144).co2.toNat = 400 := by decide +kernel
    have h401 : (quietSample 145).co2.toNat = 401 := by decide +kernel
    simp only [mean, quietSamples, List.map_cons, List.map_nil, List.sum_cons, List.sum_nil, h400,
      h401, List.length_cons, List.length_nil]
    norm_num
  rw [hmean] at hco2
  have hfloor : ⌊(2004 / 5 : ℚ)⌋ = 400 := by norm_num
  rw [hfloor] at hco2
  exact absurd hco2.2 (by norm_num [abs_of_neg])

end PppAmb
