import PppAmb.CityAttempts

/-!
# The City in the First Record

`json_get_string` takes the text of a string as it stands in the answer of the server, up to
the first quote and up to 63 bytes of it; `build_city_hyphen` cuts once more, and the first
record holds the result between quotes, as it is. This module says when that is a JSON string.

## Main results

* `json_get_string_eq`: what `json_get_string` takes from a valid answer.
* `ciudad_valid_iff`: the text of `ciudad` is well-formed exactly when neither cut falls into a
  character and no escaped quote stands in front of it.
* `escaped_quote_breaks_record`: an escaped quote in the name of a city ends in a stray
  backslash.
-/

namespace PppAmb

/-! ### What is taken from a valid answer -/

/-- The text of the string that follows the first `"key":"` of the address, as it stands in the
answer. Nothing is found if the array ends in front of the next quote. -/
def foundValue (body key : Bytes) : Bytes :=
  match strstr (memberStart key) (addressOf (body.take (UL_BODY_MAX - 1))) with
  | none => []
  | some p =>
      let rest := p.drop (memberStart key).length
      if ch '"' ∈ rest then stringAt (rest ++ body.drop (UL_BODY_MAX - 1)) else []

/-- What stands in front of the first quote. -/
def beforeQuote (s : Bytes) : Bytes :=
  s.takeWhile (· != ch '"')

theorem beforeQuote_append (s t : Bytes) : beforeQuote (s ++ ch '"' :: t) = beforeQuote s :=
  takeWhile_append_cons rfl s t

theorem beforeQuote_eq_self {s : Bytes} (h : ch '"' ∉ s) : beforeQuote s = s := by
  refine List.takeWhile_eq_self_iff.mpr fun c hc => ?_
  simpa using fun heq : c = ch '"' => h (heq ▸ hc)

/-- The first quote of a text. -/
theorem exists_beforeQuote {s : Bytes} (h : ch '"' ∈ s) :
    ch '"' ∉ beforeQuote s ∧ ∃ t, s = beforeQuote s ++ ch '"' :: t := by
  obtain ⟨u, t, hs, hu⟩ := List.eq_append_cons_of_mem h
  have hbefore : beforeQuote s = u := by
    rw [hs, beforeQuote_append, beforeQuote_eq_self hu]
  rw [hbefore]
  exact ⟨hu, t, hs⟩

theorem beforeQuote_append_of_mem {s : Bytes} (h : ch '"' ∈ s) (t : Bytes) :
    beforeQuote (s ++ t) = beforeQuote s := by
  obtain ⟨hfree, u, hs⟩ := exists_beforeQuote h
  conv_lhs => rw [hs, List.append_assoc, List.cons_append, beforeQuote_append,
    beforeQuote_eq_self hfree]

/-- A string does not begin with a quote. -/
theorem beforeQuote_eq_nil_iff {raw : Bytes} (hraw : isStringBody raw = true) :
    beforeQuote raw = [] ↔ raw = [] := by
  rcases raw with _ | ⟨c, raw⟩
  · exact iff_of_true rfl rfl
  · have hc : c ≠ ch '"' := by
      rintro rfl
      exact absurd (not_isStringBody_of_append_quote (s := []) hraw) (by decide)
    simp [beforeQuote, hc]

section Answer

variable {key : Bytes} (v : JsonValue)

/-- Where the search for a name ends there is a string. -/
theorem string_of_found (hkey : isName key = true) {rest : Bytes}
    (hfound : strstr (memberStart key) (addressOf (v.text.take (UL_BODY_MAX - 1)))
      = some (memberStart key ++ rest)) :
    ∃ raw t, rest ++ v.text.drop (UL_BODY_MAX - 1) = raw ++ ch '"' :: t ∧
      isStringBody raw = true := by
  obtain ⟨u, -, haddr, -⟩ := strstr_suffix hfound
  obtain ⟨w, hw⟩ := addressOf_suffix (v.text.take (UL_BODY_MAX - 1))
  have hocc : v.text
      = (w ++ u) ++ (memberStart key ++ (rest ++ v.text.drop (UL_BODY_MAX - 1))) := by
    conv_lhs => rw [← List.take_append_drop (UL_BODY_MAX - 1) v.text, ← hw, haddr]
    simp only [List.append_assoc]
  exact v.strings.value_of_occurrence hkey hocc

theorem isStringBody_foundValue (hkey : isName key = true) :
    isStringBody (foundValue v.text key) = true := by
  rw [foundValue]
  split
  · rfl
  · rename_i p hfound
    obtain ⟨u, rest, -, rfl⟩ := strstr_suffix hfound
    obtain ⟨raw, t, hraw, hvalid⟩ := string_of_found v hkey hfound
    simp only [List.drop_left]
    split
    · rw [hraw, stringAt_append hvalid]
      exact hvalid
    · rfl

/-- The pattern that `json_get_string` looks for, if it fits into 64 bytes. -/
theorem json_get_string_pat (hlen : key.length < 60) :
    snprintf (ascii "\"" ++ key ++ ascii "\":\"") 64 = memberStart key := by
  rw [snprintf, strlcpy, List.take_of_length_le]
  · simp [memberStart, ascii, ch]
  · simp only [List.length_append]
    change 1 + key.length + 3 ≤ 63
    omega

/-- **Extraction.** From a valid answer `json_get_string` takes the text of a string, up to
the first quote in it. -/
theorem json_get_string_eq (hkey : isName key = true) (hlen : key.length < 60) {outlen : ℕ}
    (hout : outlen ≠ 0) :
    json_get_string (addressOf (v.text.take (UL_BODY_MAX - 1))) key outlen
      = if foundValue v.text key = [] then none
        else some ((beforeQuote (foundValue v.text key)).take (outlen - 1)) := by
  simp only [json_get_string, if_neg hout, json_get_string_pat hlen]
  cases hfound : strstr (memberStart key) (addressOf (v.text.take (UL_BODY_MAX - 1))) with
  | none =>
      have hvalue : foundValue v.text key = [] := by
        rw [foundValue, hfound]
      rw [if_pos hvalue]
  | some p =>
      obtain ⟨u, rest, -, rfl⟩ := strstr_suffix hfound
      simp only [List.drop_left]
      by_cases hquote : ch '"' ∈ rest
      · obtain ⟨raw, t, hraw, hvalid⟩ := string_of_found v hkey hfound
        obtain ⟨hfree, t', hrest⟩ := exists_beforeQuote hquote
        have hbefore : beforeQuote rest = beforeQuote raw := by
          rw [← beforeQuote_append_of_mem hquote, hraw, beforeQuote_append]
        have hcut : cutAt (ch '"') rest = some (beforeQuote raw, t') := by
          rw [hrest, hbefore]
          exact cutAt_append (hbefore ▸ hfree) t'
        have hvalue : foundValue v.text key = raw := by
          simp only [foundValue, hfound, List.drop_left]
          rw [if_pos hquote, hraw, stringAt_append hvalid]
        simp only [hcut, hvalue, beforeQuote_eq_nil_iff hvalid]
      · have hvalue : foundValue v.text key = [] := by
          simp only [foundValue, hfound, List.drop_left, if_neg hquote]
        rw [cutAt_eq_none hquote, if_pos hvalue]

end Answer

/-! ### The attempt that answers -/

/-- The first attempt from which a city or a state is taken. -/
def answering (perform : ℕ → Option Attempt) : Option Attempt :=
  ((List.range' 1 5).filterMap perform).find? fun a => (a.place 64 64 .empty).found

/-- The loop ends with `ESP_OK` at the first attempt that finds something, and the arrays are
as this attempt leaves them. -/
theorem ulLoop_ok {perform : ℕ → Option Attempt} {city_len state_len n attempt : ℕ}
    {last_err : EspErr}
    (h : (ulLoop perform city_len state_len n attempt last_err .empty).1 = ESP_OK) :
    ∃ a, ((List.range' attempt n).filterMap perform).find?
        (fun a => (a.place city_len state_len .empty).found) = some a ∧
      (ulLoop perform city_len state_len n attempt last_err .empty).2
        = a.place city_len state_len .empty := by
  induction n generalizing attempt last_err with
  | zero =>
      exfalso
      rw [ulLoop] at h
      split at h
      · rename_i hne
        exact hne h
      · exact absurd h (by decide)
  | succ n ih =>
      rw [List.range'_succ]
      cases ha : perform attempt with
      | none =>
          rw [List.filterMap_cons_none ha]
          simp only [ulLoop, ha] at h ⊢
          exact ih h
      | some a =>
          rw [List.filterMap_cons_some ha, List.find?_cons]
          simp only [ulLoop, ha] at h ⊢
          by_cases hfound : (a.place city_len state_len .empty).found = true
          · rw [if_pos ⟨Attempt.answered_of_found hfound, hfound⟩, hfound]
            exact ⟨a, rfl, rfl⟩
          · rw [if_neg (fun hret => hfound hret.2)] at h ⊢
            rw [Bool.not_eq_true] at hfound
            rw [Place.eq_empty hfound] at h ⊢
            exact ih h

theorem modem_unwiredlabs_city_state_ok {token : Bytes} {ue : UeState}
    {perform : Bytes → ℕ → Option Attempt}
    (h : (modem_unwiredlabs_city_state token ue perform 64 64).1 = ESP_OK) :
    token ≠ [] ∧ ∃ a, answering (perform (ulPayload token ue.s_ue_info)) = some a ∧
      (modem_unwiredlabs_city_state token ue perform 64 64).2 = a.place 64 64 .empty := by
  rw [modem_unwiredlabs_city_state] at h ⊢
  split at h
  · exact absurd h (by decide)
  · rename_i hvalid
    split at h
    · exact absurd h (by decide)
    · rename_i htoken
      simp only [if_neg hvalid, if_neg htoken] at h ⊢
      split at h
      · exact absurd h (by decide)
      · rename_i hpayload
        rw [if_neg hpayload]
        exact ⟨htoken, ulLoop_ok h⟩

/-- The part of a value that an array of 64 bytes gets. -/
def taken (raw : Bytes) : Bytes :=
  (beforeQuote raw).take 63

/-- The arrays behind the attempt that answers. -/
theorem place_of_answer {a : Attempt} {v : JsonValue} (hbody : a.body = v.text)
    (hfound : (a.place 64 64 .empty).found = true) :
    a.place 64 64 .empty
      = ⟨taken (foundValue v.text (ascii "city")), taken (foundValue v.text (ascii "state"))⟩ := by
  have hget : ∀ {key : Bytes}, isName key = true → key.length < 60 →
      (json_get_string (addressOf (v.text.take (UL_BODY_MAX - 1))) key 64).getD []
        = taken (foundValue v.text key) := by
    intro key hkey hlen
    rw [json_get_string_eq v hkey hlen (by decide)]
    split
    · rename_i hnone
      rw [hnone]
      rfl
    · rfl
  have hnul : NulFree a.body := hbody ▸ v.strings.nulFree
  rw [Attempt.place, if_pos (Attempt.answered_of_found hfound), cString_collect hnul, hbody,
    ← hget rfl (by decide), ← hget rfl (by decide)]
  rfl

/-! ### The text between the quotes -/

/-- The first `k` bytes of a value hold no escaped quote and end with a character. -/
def Whole (k : ℕ) (raw : Bytes) : Prop :=
  ch '"' ∉ raw.take k ∧ isStringBody (raw.take k) = true

instance (k : ℕ) (raw : Bytes) : Decidable (Whole k raw) :=
  inferInstanceAs (Decidable (_ ∧ _))

/-- What is taken of a value is well-formed only if the value is whole so far. -/
theorem isStringBody_take_beforeQuote {raw : Bytes} (hraw : isStringBody raw = true) (k : ℕ) :
    isStringBody ((beforeQuote raw).take k) = true ↔ Whole k raw := by
  have htake : (beforeQuote raw).take k = beforeQuote (raw.take k) := List.take_takeWhile
  rw [htake, Whole]
  by_cases hquote : ch '"' ∈ raw.take k
  · obtain ⟨-, t, ht⟩ := exists_beforeQuote hquote
    -- the quote is escaped, and the backslash in front of it is taken without it
    have hsplit : raw = beforeQuote (raw.take k) ++ ch '"' :: (t ++ raw.drop k) := by
      conv_lhs => rw [← List.take_append_drop k raw, ht]
      simp
    have hstray := not_isStringBody_of_append_quote (hsplit ▸ hraw)
    simp [hstray, hquote]
  · rw [beforeQuote_eq_self hquote]
    simp [hquote]

theorem take_beforeQuote_of_whole {k : ℕ} {raw : Bytes} (h : Whole k raw) :
    (beforeQuote raw).take k = raw.take k := by
  have htake : (beforeQuote raw).take k = beforeQuote (raw.take k) := List.take_takeWhile
  rw [htake, beforeQuote_eq_self h.1]

/-- A text and a hyphen and a text, cut to 63 bytes. -/
theorem isStringBody_joined {c s : Bytes} (hc : c.length ≤ 63) :
    isStringBody ((c ++ ch '-' :: s).take 63) = true ↔
      isStringBody c = true ∧ isStringBody (s.take (62 - c.length)) = true := by
  rw [take_append_room _ hc]
  by_cases hfull : c.length = 63
  · simp [hfull]
  · obtain ⟨n, hn⟩ : ∃ n, 63 - c.length = n + 1 := ⟨62 - c.length, by omega⟩
    rw [hn, List.take_succ_cons, isStringBody_append_mark rfl,
      show 62 - c.length = n by omega]

/-- The text that `build_city_hyphen` begins with. -/
def cityOrDashes (city : Bytes) : Bytes :=
  if city ≠ [] then city else ascii "----"

theorem isStringBody_build_city_hyphen {city state : Bytes} (hcity : city.length ≤ 63) :
    isStringBody (sensors_set_city_state (build_city_hyphen 64 city state)) = true ↔
      isStringBody city = true ∧
        isStringBody (state.take (62 - (cityOrDashes city).length)) = true := by
  have hlen : (cityOrDashes city).length ≤ 63 := by
    rw [cityOrDashes]
    split
    · exact hcity
    · decide
  have hvalid : isStringBody (cityOrDashes city) = isStringBody city := by
    rw [cityOrDashes]
    split
    · rfl
    · rename_i hnone
      rw [not_not.mp hnone]
      rfl
  have hhyphen : ∀ c, hyphen c = c ∨ (isMark c = true ∧ isMark (hyphen c) = true) := by
    intro c
    rw [hyphen]
    split
    · rename_i hc
      rcases hc with rfl | rfl | rfl <;> exact Or.inr ⟨rfl, rfl⟩
    · exact Or.inl rfl
  have hset : ∀ t : Bytes, t.length ≤ 63 →
      isStringBody (sensors_set_city_state (t.map hyphen)) = isStringBody t := by
    intro t ht
    have hshort : ¬ (t.map hyphen).length ≥ 64 := by
      rw [List.length_map]
      omega
    rw [sensors_set_city_state, if_neg hshort, List.take_length, isStringBody_map hhyphen]
  rw [build_city_hyphen, ← cityOrDashes, hset]
  · by_cases hstate : state = []
    · simp [hstate, snprintf, strlcpy, List.take_of_length_le hlen, hvalid]
    · rw [if_pos hstate, snprintf, strlcpy, List.append_assoc, ← hvalid]
      exact isStringBody_joined hlen
  · split <;> exact List.length_take_le _ _

/-! ### The record -/

section Members

variable (c : Setting) (r : Record)

/-- The value of a member as it is printed. -/
def Record.value (f : Field) : Bytes :=
  let quote := if f ∈ measures then [] else ascii "\""
  quote ++ r.text c f ++ quote

/-- The record before it is written into its array. -/
def Record.whole : Bytes :=
  ascii "\x7b" ++ ((r.fields.map (r.member c)).intersperse (ascii ",")).flatten ++ ascii "\x7d"

/-- Every member but `ciudad` is valid, and the array holds the record. -/
structure Record.RestValid : Prop where
  values : ∀ f ∈ r.fields, f ≠ .ciudad → ∃ v : JsonValue, r.value c f = v.text
  fits : (r.whole c).length < 384

theorem Record.member_eq (f : Field) : r.member c f = memberText (f.name, r.value c f) := by
  simp [Record.member, Record.value, memberText, ascii, ch]

/-- The record is the text of an object. -/
theorem Record.whole_eq :
    r.whole c = objectText (r.fields.map fun f => (f.name, r.value c f)) := by
  have hmembers : (r.fields.map fun f => (f.name, r.value c f)).map memberText
      = r.fields.map (r.member c) := by
    rw [List.map_map]
    exact List.map_congr_left fun f _ => (r.member_eq c f).symm
  obtain ⟨f, fs, hfields⟩ := List.exists_cons_of_ne_nil
    (show r.fields ≠ [] by simp [Record.fields, measures])
  rw [objectText, hmembers, Record.whole, hfields, List.map_cons, bracketed, append_itemsTail]
  rfl

/-- The array holds a record that is short enough. -/
theorem Record.json_eq_whole (h : (r.whole c).length < 384) : r.json c = r.whole c :=
  List.take_of_length_le (Nat.le_of_lt_succ h)

theorem Field.name_valid (f : Field) : isStringBody f.name = true := by
  cases f <;> rfl

/-- Valid members are the members of a valid object. -/
theorem exists_members {fs : List Field}
    (h : ∀ f ∈ fs, ∃ v : JsonValue, r.value c f = v.text) :
    ∃ ms : List (StringText × Json), Json.wellFormedMembers ms = true ∧
      Json.printMembers ms = fs.map fun f => (f.name, r.value c f) := by
  induction fs with
  | nil => exact ⟨[], rfl, rfl⟩
  | cons f fs ih =>
      obtain ⟨⟨v, hv⟩, hrest⟩ := List.forall_mem_cons.mp h
      obtain ⟨ms, hms, hprint⟩ := ih hrest
      refine ⟨(⟨f.name, isRawString_of_isStringBody f.name_valid⟩, v.value) :: ms, ?_, ?_⟩
      · exact Json.wellFormedMembers_cons.mpr ⟨f.name_valid, v.valid, hms⟩
      · rw [Json.printMembers, List.map_cons, hprint, hv]
        rfl

/-- A record whose members are valid is valid. -/
theorem record_valid (hcity : isStringBody (r.text c .ciudad) = true) (h : r.RestValid c) :
    ∃ v : JsonValue, r.json c = v.text := by
  have hvalues : ∀ f ∈ r.fields, ∃ v : JsonValue, r.value c f = v.text := by
    intro f hf
    by_cases hciudad : f = .ciudad
    · rw [hciudad]
      exact ⟨⟨.string ⟨r.text c .ciudad, isRawString_of_isStringBody hcity⟩, hcity⟩, rfl⟩
    · exact h.values f hf hciudad
  obtain ⟨ms, hms, hprint⟩ := exists_members c r hvalues
  refine ⟨⟨.object ms, hms⟩, ?_⟩
  rw [Record.json_eq_whole c r h.fits, Record.whole_eq, JsonValue.text, Json.print, hprint]

end Members

/-! ### The city of an answer -/

/-- How many bytes of the record the city takes. -/
def cityLength (raw : Bytes) : ℕ :=
  if raw = [] then 4 else min 63 raw.length

/-- The setting of a station whose `g_city_state` is the given text. -/
def Setting.inCity (c : Setting) (g_city_state : Bytes) : Setting :=
  { c with city_state := .of g_city_state }

theorem nulFree_taken {raw : Bytes} (h : isStringBody raw = true) : NulFree (taken raw) := by
  have hraw : NulFree raw := StringState.nulFree_of_run (isStringBody_iff.mp h)
  exact NulFree.take (fun b hb => hraw b (List.takeWhile_subset _ hb)) 63

theorem nulFree_build_city_hyphen {city state : Bytes} (hcity : NulFree city)
    (hstate : NulFree state) :
    NulFree (sensors_set_city_state (build_city_hyphen 64 city state)) := by
  have hhyphen : ∀ {t : Bytes}, NulFree t → NulFree (t.map hyphen) := by
    intro t ht b hb
    obtain ⟨d, hd, rfl⟩ := List.mem_map.mp hb
    rw [hyphen]
    split
    · decide
    · exact ht d hd
  have hdashes : NulFree (if city ≠ [] then city else ascii "----") := by
    split
    · exact hcity
    · decide
  refine NulFree.take (hhyphen ?_) _
  split
  · exact ((hdashes.append (by decide)).append hstate).take _
  · exact hdashes.take _

/-- `g_city_state` behind an answer in valid JSON. -/
theorem cityStep_of_answer {token : Bytes} {ue : UeState} {perform : Bytes → ℕ → Option Attempt}
    {a : Attempt} {v : JsonValue}
    (hok : (modem_unwiredlabs_city_state token ue perform 64 64).1 = ESP_OK)
    (ha : answering (perform (ulPayload token ue.s_ue_info)) = some a) (hbody : a.body = v.text) :
    cityStep token ue perform = sensors_set_city_state (build_city_hyphen 64
      (taken (foundValue v.text (ascii "city"))) (taken (foundValue v.text (ascii "state")))) := by
  obtain ⟨htoken, a', ha', hplace⟩ := modem_unwiredlabs_city_state_ok hok
  obtain rfl : a = a' := Option.some.inj (ha.symm.trans ha')
  have hfound : (a.place 64 64 .empty).found = true := by
    rw [answering] at ha
    simpa using List.find?_some ha
  rw [cityStep, if_pos htoken]
  simp only [hok, if_true, hplace, place_of_answer hbody hfound]

/-- The length of the text in front of the hyphen. -/
theorem length_cityOrDashes {raw : Bytes} (h : Whole 63 raw) :
    (cityOrDashes (taken raw)).length = cityLength raw := by
  have htaken : taken raw = raw.take 63 := take_beforeQuote_of_whole h
  rw [cityOrDashes, cityLength, htaken]
  by_cases hnone : raw = []
  · simp [hnone, ascii]
  · rw [if_neg hnone, if_pos (by simpa using hnone), List.length_take]

/-- **The city in the record.** After an answer in valid JSON the text of `ciudad` is
well-formed, and the record with it, exactly when the first 63 bytes of the name of the city,
and as many bytes of the name of the state as still fit, hold no escaped quote and end with a
character. -/
theorem ciudad_valid_iff {token : Bytes} {ue : UeState} {perform : Bytes → ℕ → Option Attempt}
    {a : Attempt} {v : JsonValue} (c : Setting) (r : Record)
    (hok : (modem_unwiredlabs_city_state token ue perform 64 64).1 = ESP_OK)
    (ha : answering (perform (ulPayload token ue.s_ue_info)) = some a) (hbody : a.body = v.text) :
    (isStringBody (r.text (c.inCity (cityStep token ue perform)) .ciudad) = true ∧
        (r.RestValid (c.inCity (cityStep token ue perform)) →
          ∃ w : JsonValue, r.json (c.inCity (cityStep token ue perform)) = w.text)) ↔
      Whole 63 (foundValue v.text (ascii "city")) ∧
        Whole (62 - cityLength (foundValue v.text (ascii "city")))
          (foundValue v.text (ascii "state")) := by
  have hcity : isStringBody (foundValue v.text (ascii "city")) = true :=
    isStringBody_foundValue v rfl
  have hstate : isStringBody (foundValue v.text (ascii "state")) = true :=
    isStringBody_foundValue v rfl
  have htext : r.text (c.inCity (cityStep token ue perform)) .ciudad
      = cityStep token ue perform := by
    rw [cityStep_of_answer hok ha hbody]
    exact cString_eq_self
      (nulFree_build_city_hyphen (nulFree_taken hcity) (nulFree_taken hstate))
  have hlength : (taken (foundValue v.text (ascii "city"))).length ≤ 63 := List.length_take_le _ _
  have hlast : ∀ n, (taken (foundValue v.text (ascii "state"))).take (62 - n)
      = (beforeQuote (foundValue v.text (ascii "state"))).take (62 - n) := by
    intro n
    rw [taken, List.take_take, Nat.min_eq_left (by omega)]
  have hvalid : isStringBody (r.text (c.inCity (cityStep token ue perform)) .ciudad) = true ↔
      Whole 63 (foundValue v.text (ascii "city")) ∧
        Whole (62 - cityLength (foundValue v.text (ascii "city")))
          (foundValue v.text (ascii "state")) := by
    rw [htext, cityStep_of_answer hok ha hbody,
      isStringBody_build_city_hyphen hlength, hlast,
      isStringBody_take_beforeQuote hstate, taken, isStringBody_take_beforeQuote hcity]
    refine and_congr_right fun hwhole => ?_
    rw [← taken, length_cityOrDashes hwhole]
  rw [← hvalid]
  exact ⟨fun h => h.1, fun h => ⟨h, record_valid _ r h⟩⟩

/-! ### Two answers -/

/-- The answer of the server for a city in Puebla. -/
def cityAnswer (city : StringText) : Json :=
  .object [(plainName "status" rfl, .string (plainName "ok" rfl)),
    (plainName "address_detail" rfl, .object [(plainName "city" rfl, .string city),
      (plainName "state" rfl, .string (plainName "Puebla" rfl))])]

/-- An attempt that brings the given body. -/
def delivered (body : Bytes) : Attempt :=
  ⟨[.onConnected, .onData body, .onFinish], ESP_OK, 200, false⟩

/-- Every attempt brings the given body. -/
def answersWith (body : Bytes) : Bytes → ℕ → Option Attempt :=
  fun _ _ => some (delivered body)

/-- The cell of a station. -/
def servedCell : UeState :=
  ⟨⟨334, 20, 562, 43790378, true⟩, true⟩

/-- A station whose city is not known yet. -/
def cityStation : Setting :=
  ⟨.exact, .of (ascii "----"), .of (ascii "id"), ascii "00:00:00"⟩

/-- The first record of a station, with nothing measured. -/
def firstRecord : Record :=
  ⟨.first, ⟨0, 0, 0, 0, 0, 0, 0, 0, 0, 0, 0, 0, 0⟩, localtime_r 21600 1758000000⟩

/-- The city is called as its state. -/
def sameName : JsonValue :=
  ⟨cityAnswer (plainName "Puebla" rfl), rfl⟩

theorem restValid_puebla : firstRecord.RestValid
    (cityStation.inCity (cityStep (ascii "token") servedCell (answersWith sameName.text))) where
  values := by
    intro f _ hf
    cases f with
    | pm1p0 | pm2p5 | pm4p0 | pm10p0 | cTe | cHu =>
        exact ⟨⟨.number ⟨false, 0, [], some [0, 0], none⟩, rfl⟩, by decide +kernel⟩
    | voc | nox => exact ⟨⟨.number ⟨false, 0, [], some [0], none⟩, rfl⟩, by decide +kernel⟩
    | co2 => exact ⟨⟨.number ⟨false, 0, [], none, none⟩, rfl⟩, by decide +kernel⟩
    | fecha => exact ⟨⟨.string (plainName "15-09-2025" rfl), rfl⟩, by decide +kernel⟩
    | inicio => exact ⟨⟨.string (plainName "00:00:00" rfl), rfl⟩, by decide +kernel⟩
    | ciudad => exact absurd rfl hf
    | hora => exact ⟨⟨.string (plainName "23:20:00" rfl), rfl⟩, by decide +kernel⟩
    | id => exact ⟨⟨.string (plainName "id" rfl), rfl⟩, by decide +kernel⟩
  fits := by decide +kernel

theorem ciudad_valid_puebla :
    isStringBody (firstRecord.text
        (cityStation.inCity (cityStep (ascii "token") servedCell (answersWith sameName.text)))
        .ciudad) = true ∧
      ∃ w : JsonValue, firstRecord.json
        (cityStation.inCity (cityStep (ascii "token") servedCell (answersWith sameName.text)))
        = w.text := by
  have hok : (modem_unwiredlabs_city_state (ascii "token") servedCell (answersWith sameName.text)
      64 64).1 = ESP_OK := by decide +kernel
  have hanswer : answering (answersWith sameName.text (ulPayload (ascii "token")
      servedCell.s_ue_info)) = some (delivered sameName.text) := by decide +kernel
  have hbody : (delivered sameName.text).body = sameName.text := by decide +kernel
  have hvalid := (ciudad_valid_iff cityStation firstRecord hok hanswer hbody).mpr
    (by decide +kernel)
  exact ⟨hvalid.1, hvalid.2 restValid_puebla⟩

/-- The name of the city holds two escaped quotes. -/
def quotedName : JsonValue :=
  ⟨cityAnswer (plainName "Villa \\\"El Sol\\\"" rfl), rfl⟩

/-- **A stray backslash.** The name of the city ends at the first of its escaped quotes, and
the backslash in front of it then escapes the hyphen. -/
theorem escaped_quote_breaks_record :
    quotedName.text = ascii "\x7b\"status\":\"ok\",\"address_detail\":\x7b\"city\":\"Villa \\\"El "
        ++ ascii "Sol\\\"\",\"state\":\"Puebla\"\x7d\x7d" ∧
      (modem_unwiredlabs_city_state (ascii "token") servedCell (answersWith quotedName.text)
        64 64).1 = ESP_OK ∧
      firstRecord.text
        (cityStation.inCity (cityStep (ascii "token") servedCell (answersWith quotedName.text)))
        .ciudad = ascii "Villa \\-Puebla" ∧
      isStringBody (ascii "Villa \\-Puebla") = false := by
  decide +kernel

end PppAmb
