import PppAmb.AppMain
import PppAmb.CellPayload

/-!
# The Calls of the Geolocation Request

`modem_unwiredlabs_city_state` is given twice: as a function of what its attempts bring, with the
attempts and the payloads beside it, and as a program that makes the calls. This module shows
that these say the same: what is given beside the function is what the program does.

## Main results

* `ulLoop_calls`, `exists_ulLoop_calls`: the calls of the loop.
* `city_state_calls`: the result of a run, its attempts and the payloads it sends are those of
  the function for some answers; and for all answers there is such a run.
-/

namespace PppAmb

namespace Board

/-! ### What a record shows -/

/-- A call that ends an attempt without a client, or that sends a request. -/
def attemptOf : Answered Call Reply → Option (Option Attempt)
  | ⟨.esp_http_client_init, cli⟩ => if cli then none else some none
  | ⟨.esp_http_client_perform _, a⟩ => some (some a)
  | _ => none

/-- What a call sends. -/
def payloadOf : Answered Call Reply → Option Bytes
  | ⟨.esp_http_client_perform payload, _⟩ => some payload
  | _ => none

/-- The attempts of a record; `none` is one without a client. -/
def attemptsOf (log : List (Answered Call Reply)) : List (Option Attempt) :=
  log.filterMap attemptOf

/-- The payloads of a record. -/
def payloadsOf (log : List (Answered Call Reply)) : List Bytes :=
  log.filterMap payloadOf

/-- The record of a loop that sends a payload shows the attempts. -/
structure Shows (log : List (Answered Call Reply)) (payload : Bytes)
    (made : List (Option Attempt)) : Prop where
  attempts : attemptsOf log = made
  payloads : payloadsOf log = made.filterMap fun a => a.map fun _ => payload

variable {log log' : List (Answered Call Reply)} {payload : Bytes}
  {made made' : List (Option Attempt)}

/-- Two records show the attempts of the first, then those of the second. -/
theorem Shows.append (h : Shows log payload made) (h' : Shows log' payload made') :
    Shows (log ++ log') payload (made ++ made') := by
  constructor
  · rw [attemptsOf, List.filterMap_append]
    exact congrArg₂ _ h.attempts h'.attempts
  · rw [payloadsOf, List.filterMap_append, List.filterMap_append]
    exact congrArg₂ _ h.payloads h'.payloads

/-- No call shows nothing. -/
theorem shows_nil (payload : Bytes) : Shows [] payload [] :=
  ⟨rfl, rfl⟩

/-- There is no client. -/
theorem shows_failed (payload : Bytes) : Shows [⟨.esp_http_client_init, false⟩] payload [none] :=
  ⟨rfl, rfl⟩

/-- There is one, and the request is performed. -/
theorem shows_performed (payload : Bytes) (a : Attempt) :
    Shows [⟨.esp_http_client_init, true⟩, ⟨.esp_http_client_perform payload, a⟩] payload [some a] :=
  ⟨rfl, rfl⟩

/-! ### What has nothing to do with an attempt -/

/-- The program has a run to its end, and no run of it shows an attempt. -/
structure Aside {α : Type} (p : Board α) : Prop where
  shows : ∀ {log x}, p.Returns log x → ∀ payload, Shows log payload []
  returns : ∃ log x, p.Returns log x

/-- Returning is no attempt. -/
theorem aside_pure {α : Type} (x : α) : Aside (pure x : Board α) where
  shows h payload := by
    obtain ⟨rfl, -⟩ := returns_done.mp h
    exact shows_nil payload
  returns := ⟨[], x, .refl _⟩

/-- A call that does not concern a client. -/
theorem aside_ask {c : Call} (reply : Reply c) (hattempt : ∀ r, attemptOf ⟨c, r⟩ = none)
    (hpayload : ∀ r, payloadOf ⟨c, r⟩ = none) : Aside (ask c) where
  shows h payload := by
    obtain ⟨r, log', rfl, hdone⟩ := returns_call.mp h
    obtain ⟨rfl, -⟩ := returns_done.mp hdone
    exact ⟨by simp [attemptsOf, hattempt], by simp [payloadsOf, hpayload]⟩
  returns := ⟨_, reply, .call (.refl _)⟩

/-- Two such programs in sequence. -/
theorem Aside.bind {α β : Type} {p : Board α} {f : α → Board β} (hp : Aside p)
    (hf : ∀ x, Aside (f x)) : Aside (p >>= f) where
  shows h payload := by
    obtain ⟨x, log₁, log₂, rfl, h₁, h₂⟩ := returns_bind.mp h
    exact (hp.shows h₁ payload).append ((hf x).shows h₂ payload)
  returns := by
    obtain ⟨log₁, x, h₁⟩ := hp.returns
    obtain ⟨log₂, y, h₂⟩ := (hf x).returns
    exact ⟨log₁ ++ log₂, y, returns_bind.mpr ⟨x, log₁, log₂, rfl, h₁, h₂⟩⟩

/-- A pause is no attempt. -/
theorem aside_vTaskDelay (ms : ℕ) : Aside (vTaskDelay ms) :=
  aside_ask () (fun _ => rfl) fun _ => rfl

/-- Asking for the name of the interface is no attempt. -/
theorem aside_netifName (s_ppp_netif : Bool) : Aside (netifName s_ppp_netif) := by
  rw [netifName]
  split
  · exact aside_ask () (fun _ => rfl) fun _ => rfl
  · exact aside_pure ()

/-- Setting the name servers is no attempt. -/
theorem aside_force_public_dns (s_ppp_netif : Bool) : Aside (force_public_dns s_ppp_netif) := by
  refine (aside_ask () (fun _ => rfl) fun _ => rfl).bind fun _ =>
    (aside_ask () (fun _ => rfl) fun _ => rfl).bind fun _ => ?_
  split
  · exact (aside_ask () (fun _ => rfl) fun _ => rfl).bind fun _ =>
      aside_ask () (fun _ => rfl) fun _ => rfl
  · exact aside_pure ()

/-! ### The loop -/

/-- The answers of the attempts, by their numbers. -/
def Numbered (perform : ℕ → Option Attempt) (attempt : ℕ) (made : List (Option Attempt)) : Prop :=
  ∀ j (hj : j < made.length), perform (attempt + j) = made[j]

/-- The first attempt has the number to start from. -/
theorem Numbered.head {perform : ℕ → Option Attempt} {attempt : ℕ} {a : Option Attempt}
    (h : Numbered perform attempt (a :: made)) : perform attempt = a :=
  h 0 (by simp)

/-- The later ones have the numbers that follow. -/
theorem Numbered.tail {perform : ℕ → Option Attempt} {attempt : ℕ} {a : Option Attempt}
    (h : Numbered perform attempt (a :: made)) : Numbered perform (attempt + 1) made := by
  intro j hj
  have hlater := h (j + 1) (by simpa using hj)
  rwa [← Nat.add_assoc, Nat.add_right_comm] at hlater

/-- **The calls of the loop** in a run to its end: with the answers of its attempts the function
comes to the same result, by the same attempts. -/
theorem ulLoop_calls {s_ppp_netif : Bool} {payload : Bytes} {city_len state_len n attempt : ℕ}
    {last_err : EspErr} {p : Place} {log : List (Answered Call Reply)} {r : EspErr × Place}
    (h : (ulLoop s_ppp_netif payload city_len state_len n attempt last_err p).Returns log r) :
    ∃ made, Shows log payload made ∧ ∀ perform, Numbered perform attempt made →
      PppAmb.ulLoop perform city_len state_len n attempt last_err p = r ∧
        ulAttempts perform city_len state_len n attempt p = made := by
  induction n generalizing attempt last_err p log with
  | zero =>
      obtain ⟨rfl, rfl⟩ := returns_done.mp h
      exact ⟨[], shows_nil _, fun _ _ => ⟨rfl, rfl⟩⟩
  | succ n ih =>
      rw [ulLoop] at h
      obtain ⟨_, dns, _, rfl, hdns, hloop⟩ := returns_bind.mp h
      obtain ⟨_, name, _, rfl, hname, hclient⟩ := returns_bind.mp hloop
      obtain ⟨cli, log, rfl, hcase⟩ := returns_ask_bind.mp hclient
      have haside : Shows (dns ++ name) payload [] :=
        ((aside_force_public_dns _).shows hdns payload).append
          ((aside_netifName _).shows hname payload)
      rw [← List.append_assoc]
      split at hcase
      · rename_i hcli
        obtain rfl : cli = false := by simpa using hcli
        obtain ⟨_, pause, log, rfl, hpause, hlater⟩ := returns_bind.mp hcase
        obtain ⟨made, hmade, hsame⟩ := ih hlater
        refine ⟨none :: made, haside.append ((shows_failed payload).append
          (((aside_vTaskDelay _).shows hpause payload).append hmade)), fun perform hperform => ?_⟩
        obtain ⟨hresult, hattempts⟩ := hsame perform hperform.tail
        rw [PppAmb.ulLoop, ulAttempts, hperform.head]
        exact ⟨hresult, congrArg _ hattempts⟩
      · rename_i hcli
        obtain rfl : cli = true := by simpa using hcli
        obtain ⟨a, log, rfl, hanswer⟩ := returns_ask_bind.mp hcase
        simp only at hanswer
        split at hanswer
        · rename_i hfound
          obtain ⟨rfl, rfl⟩ := returns_done.mp hanswer
          refine ⟨[some a], haside.append (shows_performed payload a), fun perform hperform => ?_⟩
          rw [PppAmb.ulLoop, ulAttempts, hperform.head]
          exact ⟨if_pos hfound, if_pos hfound⟩
        · rename_i hnone
          obtain ⟨_, pause, log, rfl, hpause, hlater⟩ := returns_bind.mp hanswer
          obtain ⟨made, hmade, hsame⟩ := ih hlater
          refine ⟨some a :: made, haside.append ((shows_performed payload a).append
            (((aside_vTaskDelay _).shows hpause payload).append hmade)), fun perform hperform => ?_⟩
          obtain ⟨hresult, hattempts⟩ := hsame perform hperform.tail
          rw [PppAmb.ulLoop, ulAttempts, hperform.head]
          exact ⟨(if_neg hnone).trans hresult, (if_neg hnone).trans (congrArg _ hattempts)⟩

/-- A run of the program ends with the result and shows the attempts. -/
def Occurs {α : Type} (p : Board α) (x : α) (payload : Bytes) (made : List (Option Attempt)) :
    Prop :=
  ∃ log, p.Returns log x ∧ Shows log payload made

/-- What comes behind a program without attempts shows all of them. -/
theorem Aside.occurs_bind {α β : Type} {p : Board α} {f : α → Board β} {y : β} (hp : Aside p)
    (hf : ∀ x, Occurs (f x) y payload made) : Occurs (p >>= f) y payload made := by
  obtain ⟨log₁, x, h₁⟩ := hp.returns
  obtain ⟨log₂, h₂, hshows⟩ := hf x
  exact ⟨log₁ ++ log₂, returns_bind.mpr ⟨x, log₁, log₂, rfl, h₁, h₂⟩,
    (hp.shows h₁ payload).append hshows⟩

/-- An attempt without a client. -/
theorem Occurs.failed {α : Type} {f : Bool → Board α} {x : α}
    (h : Occurs (f false) x payload made) :
    Occurs (ask .esp_http_client_init >>= f) x payload (none :: made) := by
  obtain ⟨log, hrun, hshows⟩ := h
  exact ⟨_, returns_ask_bind.mpr ⟨false, log, rfl, hrun⟩, (shows_failed payload).append hshows⟩

/-- An attempt with one. -/
theorem Occurs.performed {α : Type} {f : Attempt → Board α} {g : Bool → Board α} {x : α}
    {a : Attempt} (hg : g true = (ask (.esp_http_client_perform payload) >>= f))
    (h : Occurs (f a) x payload made) :
    Occurs (ask .esp_http_client_init >>= g) x payload (some a :: made) := by
  obtain ⟨log, hrun, hshows⟩ := h
  have hrest : (g true).Returns (⟨.esp_http_client_perform payload, a⟩ :: log) x := by
    rw [hg]
    exact returns_ask_bind.mpr ⟨a, log, rfl, hrun⟩
  exact ⟨_, returns_ask_bind.mpr ⟨true, _, rfl, hrest⟩,
    (shows_performed payload a).append hshows⟩

/-- **Every sequence of answers occurs** in a run of the loop. -/
theorem exists_ulLoop_calls (s_ppp_netif : Bool) (payload : Bytes) (perform : ℕ → Option Attempt)
    (city_len state_len n attempt : ℕ) (last_err : EspErr) (p : Place) :
    Occurs (ulLoop s_ppp_netif payload city_len state_len n attempt last_err p)
      (PppAmb.ulLoop perform city_len state_len n attempt last_err p) payload
      (ulAttempts perform city_len state_len n attempt p) := by
  induction n generalizing attempt last_err p with
  | zero => exact ⟨[], .refl _, shows_nil _⟩
  | succ n ih =>
      rw [ulLoop, PppAmb.ulLoop, ulAttempts]
      refine (aside_force_public_dns _).occurs_bind fun _ =>
        (aside_netifName _).occurs_bind fun _ => ?_
      cases perform attempt with
      | none =>
          refine Occurs.failed ?_
          exact (aside_vTaskDelay _).occurs_bind fun _ => ih (attempt + 1) last_err p
      | some a =>
          by_cases hfound : a.answered ∧ (a.place city_len state_len p).found
          · simp only [if_pos hfound]
            refine Occurs.performed rfl ?_
            rw [if_pos hfound]
            exact ⟨[], .refl _, shows_nil _⟩
          · simp only [if_neg hfound]
            refine Occurs.performed rfl ?_
            rw [if_neg hfound]
            exact (aside_vTaskDelay _).occurs_bind fun _ => ih (attempt + 1) a.err _

/-! ### The call -/

/-- The answers of a record, by their numbers. -/
theorem numbered_getD (made : List (Option Attempt)) :
    Numbered (fun attempt => made.getD (attempt - 1) none) 1 made := by
  intro j hj
  simp [hj]

/-- **What is given beside the function is what the program does.** Whatever the outside replies,
a run of `modem_unwiredlabs_city_state` that comes to its end has the result of the function for
some answers, and its attempts and the payloads it sends are those that are given beside it. For
all answers there is such a run. -/
theorem city_state_calls (token : Bytes) (s : ModemStatics) (city_len state_len : ℕ) :
    (∀ log r, (modem_unwiredlabs_city_state token s city_len state_len).Returns log r →
      ∃ perform, r = PppAmb.modem_unwiredlabs_city_state token s.ue perform city_len state_len ∧
        attemptsOf log = attemptsMade token s.ue perform city_len state_len ∧
        payloadsOf log = payloadsSent token s.ue perform city_len state_len) ∧
    ∀ perform, ∃ log, (modem_unwiredlabs_city_state token s city_len state_len).Returns log
        (PppAmb.modem_unwiredlabs_city_state token s.ue perform city_len state_len) ∧
      attemptsOf log = attemptsMade token s.ue perform city_len state_len ∧
      payloadsOf log = payloadsSent token s.ue perform city_len state_len := by
  have hearly : ∀ x : EspErr × Place,
      (∀ log r, (pure x : Board (EspErr × Place)).Returns log r →
        ∃ _ : Bytes → ℕ → Option Attempt, r = x ∧ attemptsOf log = [] ∧ payloadsOf log = []) ∧
      ((Bytes → ℕ → Option Attempt) → ∃ log, (pure x : Board (EspErr × Place)).Returns log x ∧
        attemptsOf log = [] ∧ payloadsOf log = []) := by
    refine fun x => ⟨fun log r h => ?_, fun _ => ⟨[], .refl _, rfl, rfl⟩⟩
    obtain ⟨rfl, rfl⟩ := returns_done.mp h
    exact ⟨fun _ _ => none, rfl, rfl, rfl⟩
  rw [modem_unwiredlabs_city_state]
  unfold PppAmb.modem_unwiredlabs_city_state payloadsSent attemptsMade
  by_cases hvalid : s.ue.s_ue_valid = false
  · simpa [hvalid] using hearly (ESP_FAIL, .empty)
  by_cases htoken : token = []
  · simpa [hvalid, htoken] using hearly (ESP_ERR_INVALID_ARG, .empty)
  by_cases hcut : (ulPayload token s.ue.s_ue_info).length ≥ 256
  · simpa [hvalid, htoken, hcut] using hearly (ESP_FAIL, .empty)
  have hsent : snprintf (ulPayload token s.ue.s_ue_info) 256 = ulPayload token s.ue.s_ue_info :=
    List.take_of_length_le (by omega)
  simp only [hvalid, htoken, hcut, hsent, reduceCtorEq, if_false, or_self]
  constructor
  · intro log r h
    obtain ⟨made, hshows, hsame⟩ := ulLoop_calls h
    obtain ⟨hresult, hattempts⟩ := hsame _ (numbered_getD made)
    refine ⟨fun _ attempt => made.getD (attempt - 1) none, hresult.symm, ?_, ?_⟩
    · rw [hattempts, hshows.attempts]
    · rw [hattempts, hshows.payloads]
  · intro perform
    obtain ⟨log, hrun, hshows⟩ := exists_ulLoop_calls s.s_ppp_netif
      (ulPayload token s.ue.s_ue_info) (perform (ulPayload token s.ue.s_ue_info)) city_len
      state_len 5 1 ESP_FAIL .empty
    exact ⟨log, hrun, hshows.attempts, hshows.payloads⟩

end Board

end PppAmb
