import PppAmb.City

/-!
# The Attempts of the Geolocation Request

`modem_unwiredlabs_city_state` sends its request up to five times, and writes into the arrays of
its caller as soon as an attempt brings something. This module says what the arrays hold when it
returns, for every sequence of answers.

The list of the attempts made is bookkeeping that the program does not have; `city_state_calls`
shows that they are the ones of the calls that are made.

## Main results

* `collected_body`: what the accumulator holds behind the events of an attempt.
* `infix_of_json_get_string`: what is taken from a text stands in it.
* `city_state_outcome`: `ESP_OK` means that the last attempt has brought a city or a state; with
  any other result the arrays are empty.
-/

namespace PppAmb

/-! ### Collecting the answer -/

/-- The accumulator holds a text. -/
structure UlAccum.Collected (acc : UlAccum) (text : Bytes) : Prop where
  max : acc.max = UL_BODY_MAX
  len : acc.len = text.length
  room : text.length ≤ UL_BODY_MAX - 1
  size : acc.buf.length = UL_BODY_MAX
  content : acc.buf.take text.length = text
  terminated : acc.buf[text.length]? = some 0

/-- The accumulator whose array holds a text and NULs behind it. -/
def UlAccum.holding (text : Bytes) : UlAccum :=
  ⟨textArray UL_BODY_MAX text, UL_BODY_MAX, text.length⟩

/-- One event extends the text by its bytes, as far as the array reaches. -/
theorem ul_http_evt_holding {text : Bytes} (hroom : text.length ≤ UL_BODY_MAX - 1) (e : HttpEvent) :
    ul_http_evt (.holding text) e = .holding ((text ++ e.data).take (UL_BODY_MAX - 1)) := by
  have hbody : UL_BODY_MAX = 4096 := rfl
  cases e with
  | onData data =>
      obtain ⟨k, hk⟩ : ∃ k, k = if data.length < UL_BODY_MAX - text.length - 1 then data.length
        else UL_BODY_MAX - text.length - 1 := ⟨_, rfl⟩
      have hkn : k = min data.length (UL_BODY_MAX - 1 - text.length) := by
        split at hk <;> omega
      obtain ⟨hcopy, hlen⟩ := @memcpy_piece UL_BODY_MAX k text data (by omega) hkn
      have htext := @take_piece UL_BODY_MAX k text data (by omega) hkn
      simp only [UlAccum.holding, HttpEvent.data]
      simp only [ul_http_evt, ← hk]
      by_cases hpos : k > 0
      · rw [if_pos (by omega), if_pos hpos, hcopy, hlen]
      · obtain rfl : k = 0 := by omega
        rw [htext, List.take_zero, List.append_nil, if_neg hpos, ite_self]
  | _ =>
      simp only [ul_http_evt, HttpEvent.data, List.append_nil]
      rw [List.take_of_length_le hroom]

/-- The accumulator behind some events. -/
theorem collect_eq (es : List HttpEvent) :
    UlAccum.collect es = .holding ((es.map HttpEvent.data).flatten.take (UL_BODY_MAX - 1)) := by
  have hrun := foldl_collect (fun (acc : UlAccum) text => acc = .holding text)
    (fun acc text e hroom hacc => hacc ▸ ul_http_evt_holding hroom e) es (Nat.zero_le _)
    (rfl : UlAccum.holding [] = .holding [])
  rw [List.nil_append, List.flatMap_def] at hrun
  exact hrun

/-- **Collection.** Behind the events the array holds the first 4095 bytes of the body. -/
theorem collected_body (a : Attempt) :
    (UlAccum.collect a.events).Collected (a.body.take (UL_BODY_MAX - 1)) := by
  have hroom : (a.body.take (UL_BODY_MAX - 1)).length ≤ UL_BODY_MAX - 1 := List.length_take_le _ _
  have hbody : UL_BODY_MAX = 4096 := rfl
  have heq : UlAccum.collect a.events = .holding (a.body.take (UL_BODY_MAX - 1)) :=
    collect_eq a.events
  rw [heq]
  refine ⟨rfl, rfl, hroom, ?_, List.take_left, ?_⟩
  · rw [UlAccum.holding, textArray, List.length_append, length_zeroed]
    omega
  · rw [UlAccum.holding, textArray, List.getElem?_append_right (le_refl _), Nat.sub_self, zeroed,
      List.getElem?_replicate, if_pos (by omega)]

/-- The C string in the array. -/
theorem cString_collect {a : Attempt} (h : NulFree a.body) :
    cString (UlAccum.collect a.events).buf = a.body.take (UL_BODY_MAX - 1) := by
  have hbody := collected_body a
  rw [cString_of_take hbody.content hbody.terminated, cString_eq_self (h.take _)]

/-! ### What an attempt brings -/

theorem addressOf_suffix (ul_body : Bytes) : addressOf ul_body <:+ ul_body := by
  rw [addressOf]
  split
  · rename_i addr haddr
    obtain ⟨u, v, hs, -⟩ := strstr_suffix haddr
    exact ⟨u, hs.symm⟩
  · split
    · rename_i addr haddr
      obtain ⟨u, v, hs, -⟩ := strstr_suffix haddr
      exact ⟨u, hs.symm⟩
    · exact List.suffix_rfl

/-- What `json_get_string` takes from a text stands in it. -/
theorem infix_of_json_get_string {json key value : Bytes} {outlen : ℕ}
    (h : json_get_string json key outlen = some value) : value <:+: json := by
  rw [json_get_string] at h
  split at h
  · exact absurd h (by simp)
  · simp only at h
    split at h
    · exact absurd h (by simp)
    · rename_i p hp
      split at h
      · exact absurd h (by simp)
      · rename_i text rest hcut
        split at h
        · exact absurd h (by simp)
        · obtain rfl := Option.some.inj h
          have hprefix : text <+: p.drop (snprintf (ascii "\"" ++ key ++ ascii "\":\"") 64).length :=
            cutAt_prefix hcut
          obtain ⟨u, v, hjson, -⟩ := strstr_suffix hp
          exact ((List.take_prefix _ _).trans hprefix).isInfix.trans
            ((List.drop_suffix _ _).isInfix.trans ⟨u, [], by simp [hjson]⟩)

/-- The city and the state that an attempt brings stand in its body. -/
theorem Attempt.place_infix (a : Attempt) (city_len state_len : ℕ) :
    (a.place city_len state_len .empty).city <:+: a.body ∧
      (a.place city_len state_len .empty).state <:+: a.body := by
  have hbody : addressOf (cString (UlAccum.collect a.events).buf) <:+: a.body := by
    have hcollected := collected_body a
    rw [cString_of_take hcollected.content hcollected.terminated]
    exact (addressOf_suffix _).isInfix.trans
      ((List.takeWhile_prefix _).trans (List.take_prefix _ _)).isInfix
  have hget : ∀ (key : Bytes) (outlen : ℕ),
      (json_get_string (addressOf (cString (UlAccum.collect a.events).buf)) key outlen).getD []
        <:+: a.body := by
    intro key outlen
    cases hvalue : json_get_string (addressOf (cString (UlAccum.collect a.events).buf)) key outlen with
    | none => exact List.nil_infix
    | some value => exact (infix_of_json_get_string hvalue).trans hbody
  rw [Attempt.place]
  split
  · exact ⟨hget _ _, hget _ _⟩
  · exact ⟨List.nil_infix, List.nil_infix⟩

theorem Place.eq_empty {p : Place} (h : p.found = false) : p = .empty := by
  obtain ⟨city, state⟩ := p
  simpa [Place.found, Place.empty] using h

theorem Attempt.answered_of_found {a : Attempt} {city_len state_len : ℕ}
    (h : (a.place city_len state_len .empty).found = true) : a.answered = true := by
  by_contra hno
  rw [Attempt.place, if_neg hno] at h
  exact absurd h (by decide)

/-! ### The attempts -/

/-- The attempts `ulLoop` makes, from one on; `none` is an attempt without a client. -/
def ulAttempts (perform : ℕ → Option Attempt) (city_len state_len : ℕ) :
    ℕ → ℕ → Place → List (Option Attempt)
  | 0, _, _ => []
  | n + 1, attempt, p =>
      match perform attempt with
      | none => none :: ulAttempts perform city_len state_len n (attempt + 1) p
      | some a =>
          let p := a.place city_len state_len p
          if a.answered ∧ p.found then [some a]
          else some a :: ulAttempts perform city_len state_len n (attempt + 1) p

/-- The attempts a call makes. -/
def attemptsMade (token : Bytes) (ue : UeState) (perform : Bytes → ℕ → Option Attempt)
    (city_len state_len : ℕ) : List (Option Attempt) :=
  if ue.s_ue_valid = false ∨ token = [] ∨ (ulPayload token ue.s_ue_info).length ≥ 256 then []
  else ulAttempts (perform (ulPayload token ue.s_ue_info)) city_len state_len 5 1 .empty

theorem length_ulAttempts_le (perform : ℕ → Option Attempt) (city_len state_len n attempt : ℕ)
    (p : Place) : (ulAttempts perform city_len state_len n attempt p).length ≤ n := by
  induction n generalizing attempt p with
  | zero => exact le_rfl
  | succ n ih =>
      rw [ulAttempts]
      split
      · exact Nat.succ_le_succ (ih _ _)
      · simp only
        split
        · simp
        · exact Nat.succ_le_succ (ih _ _)

/-- **What the loop comes to** from empty arrays: it ends with `ESP_OK` and with what its last
attempt has brought, or with an error and with empty arrays. -/
inductive LoopResult (city_len state_len : ℕ) : List (Option Attempt) → EspErr × Place → Prop
  | found {made : List (Option Attempt)} {a : Attempt} (hlast : made.getLast? = some (some a))
      (hfound : (a.place city_len state_len .empty).found = true) :
      LoopResult city_len state_len made (ESP_OK, a.place city_len state_len .empty)
  | failed {made : List (Option Attempt)} {err : EspErr} (herr : err ≠ ESP_OK) :
      LoopResult city_len state_len made (err, .empty)

/-- One more attempt in front. -/
theorem LoopResult.cons {city_len state_len : ℕ} {made : List (Option Attempt)}
    {r : EspErr × Place} (h : LoopResult city_len state_len made r) (a : Option Attempt) :
    LoopResult city_len state_len (a :: made) r := by
  cases h with
  | found hlast hfound =>
      refine .found ?_ hfound
      rw [List.getLast?_cons, hlast]
      rfl
  | failed herr => exact .failed herr

theorem ulLoop_result (perform : ℕ → Option Attempt) (city_len state_len n attempt : ℕ)
    (last_err : EspErr) : LoopResult city_len state_len
      (ulAttempts perform city_len state_len n attempt .empty)
      (ulLoop perform city_len state_len n attempt last_err .empty) := by
  induction n generalizing attempt last_err with
  | zero =>
      refine .failed ?_
      split
      · assumption
      · decide
  | succ n ih =>
      rw [ulLoop, ulAttempts]
      cases perform attempt with
      | none => exact (ih _ _).cons _
      | some a =>
          simp only
          by_cases hfound : (a.place city_len state_len .empty).found = true
          · rw [if_pos ⟨Attempt.answered_of_found hfound, hfound⟩,
              if_pos ⟨Attempt.answered_of_found hfound, hfound⟩]
            exact .found rfl hfound
          · rw [if_neg (fun h => hfound h.2), if_neg (fun h => hfound h.2)]
            rw [Bool.not_eq_true] at hfound
            rw [Place.eq_empty hfound]
            exact (ih _ _).cons _

theorem city_state_result (token : Bytes) (ue : UeState) (perform : Bytes → ℕ → Option Attempt)
    (city_len state_len : ℕ) : LoopResult city_len state_len
      (attemptsMade token ue perform city_len state_len)
      (modem_unwiredlabs_city_state token ue perform city_len state_len) := by
  rw [modem_unwiredlabs_city_state]
  split
  · exact .failed (by decide)
  · rename_i hvalid
    split
    · exact .failed (by decide)
    · rename_i htoken
      simp only
      split
      · exact .failed (by decide)
      · rename_i hfits
        rw [attemptsMade, if_neg (by simp [hvalid, htoken, hfits])]
        exact ulLoop_result _ _ _ _ _ _

/-- **The outcome of the request.** For every sequence of answers and all arrays of at least one
byte: the call returns `ESP_OK` exactly when one of the arrays holds a text, and with any other
result both are empty. What they hold has been brought by the last of at most five attempts and
stands in its body. -/
theorem city_state_outcome (token : Bytes) (ue : UeState) (perform : Bytes → ℕ → Option Attempt)
    (city_size state_size : ℕ) :
    let (err, p) := modem_unwiredlabs_city_state token ue perform (city_size + 1) (state_size + 1)
    let made := attemptsMade token ue perform (city_size + 1) (state_size + 1)
    (err = ESP_OK ↔ p.city ≠ [] ∨ p.state ≠ []) ∧ (err ≠ ESP_OK → p = .empty) ∧
      made.length ≤ 5 ∧
      (err = ESP_OK → ∃ a, made.getLast? = some (some a) ∧
        p = a.place (city_size + 1) (state_size + 1) .empty ∧
        p.city <:+: a.body ∧ p.state <:+: a.body) := by
  have hmade : (attemptsMade token ue perform (city_size + 1) (state_size + 1)).length ≤ 5 := by
    rw [attemptsMade]
    split
    · simp
    · exact length_ulAttempts_le _ _ _ _ _ _
  have hresult := city_state_result token ue perform (city_size + 1) (state_size + 1)
  generalize modem_unwiredlabs_city_state token ue perform (city_size + 1) (state_size + 1) = r
    at hresult
  cases hresult with
  | found hlast hfound =>
      obtain ⟨hcity, hstate⟩ := Attempt.place_infix _ (city_size + 1) (state_size + 1)
      refine ⟨iff_of_true rfl (by simpa [Place.found] using hfound), fun h => absurd rfl h, hmade,
        fun _ => ⟨_, hlast, rfl, hcity, hstate⟩⟩
  | failed herr =>
      exact ⟨iff_of_false herr (by simp [Place.empty]), fun _ => rfl, hmade,
        fun h => absurd h herr⟩

end PppAmb
