import PppAmb.CityCalls

/-!
# What the Board Sees of the Main Program

`BoardState` is what can be told of the board from the calls that were made and what they
replied; `protocol` says which call is allowed next. The main program keeps to it, whatever the
replies are.

## Main results

* `safe_cpsiLoop`, `safe_ulLoop`: the loops that call the modem and the server do what the
  functions of the answers say.
* `app_main_allowed`: every call of the main program is allowed when it is made.
-/

namespace PppAmb

/-! ### The protocol -/

/-- What the calls and their replies tell of the board. -/
structure BoardState where
  /-- An event group has been asked for. -/
  group : Bool
  /-- `on_ip_event` is registered. -/
  handler : Bool
  /-- The mode of the modem, as far as it is known. -/
  mode : Option DceMode
  /-- The wait for the address has ended with it. -/
  up : Bool
  /-- The handles of the bus and of the devices. -/
  handles : Handles Unit
  /-- The answers to `AT+CPSI?`. -/
  cells : List AtAnswer
  /-- The attempts at the request for the city; `none` where there was no client. -/
  attempts : List (Option Attempt)
  /-- The task has been created. -/
  started : Bool

def BoardState.start : BoardState :=
  ⟨false, false, none, false, .start, [], [], false⟩

/-- The answer of an attempt by its number. -/
def nthAnswer (cells : List AtAnswer) (i : ℕ) : AtAnswer :=
  cells.getD i ⟨ESP_FAIL, .of []⟩

/-- The attempt by its number, from 1 on. -/
def nthAttempt (attempts : List (Option Attempt)) (attempt : ℕ) : Option Attempt :=
  attempts.getD (attempt - 1) none

/-- The cell that is made of the answers so far. -/
def BoardState.ue (s : BoardState) : UeState :=
  cpsiStep (nthAnswer s.cells) Board.staticsAtStart.ue

namespace Board

/-- The command that asks for the cell. -/
def cpsiCommand : Bytes :=
  ascii "AT+CPSI?\r"

/-- The state of the board behind a call. A request for command mode that fails leaves the mode
as it is; after any other that fails the mode is not known. -/
def follow (s : BoardState) : Answered Call Reply → BoardState
  | ⟨.xEventGroupCreate, _⟩ => { s with group := true }
  | ⟨.esp_event_handler_register, r⟩ => { s with handler := r = ESP_OK }
  | ⟨.esp_modem_get_mode, cur⟩ => { s with mode := some cur }
  | ⟨.esp_modem_set_mode mode, r⟩ =>
      if r = ESP_OK then { s with mode := some mode }
      else if mode = .COMMAND then s else { s with mode := none }
  | ⟨.esp_modem_at cmd _, a⟩ => if cmd = cpsiCommand then { s with cells := s.cells ++ [a] } else s
  | ⟨.xEventGroupWaitBits _, b⟩ => { s with up := b }
  | ⟨.esp_http_client_init, cli⟩ => if cli then s else { s with attempts := s.attempts ++ [none] }
  | ⟨.esp_http_client_perform _, a⟩ => { s with attempts := s.attempts ++ [some a] }
  | ⟨.i2c_new_master_bus, bus⟩ =>
      { s with handles := { s.handles with s_i2c_bus := bus.store s.handles.s_i2c_bus } }
  | ⟨.i2c_master_bus_add_device .scd4x, dev⟩ =>
      { s with handles := { s.handles with s_scd4x_dev := dev.store s.handles.s_scd4x_dev } }
  | ⟨.i2c_master_bus_add_device .sen5x, dev⟩ =>
      { s with handles := { s.handles with s_sen5x_dev := dev.store s.handles.s_sen5x_dev } }
  | ⟨.xTaskCreate _ _, _⟩ => { s with started := true }
  | _ => s

/-- Which call may come next, for a build with the given `UNWIREDLABS_TOKEN`. -/
def mayCall (token : Bytes) (s : BoardState) : Call → Prop
  -- the handler of the IP events uses the event group
  | .esp_event_handler_register => s.group = true
  -- commands are sent in command mode only
  | .esp_modem_at _ _ | .esp_modem_command _ _ => s.mode = some .COMMAND
  -- the address is waited for in data mode
  | .xEventGroupWaitBits _ => s.handler = true ∧ (s.mode = some .DATA ∨ s.mode = some .CMUX)
  -- the network is used when there is one; the server is asked at most five times, for the cell
  -- that the modem has reported
  | .esp_sntp_init _ | .esp_http_client_init => s.up = true
  | .esp_http_client_perform payload => s.up = true ∧ s.attempts.length < 5 ∧
      s.ue.s_ue_valid = true ∧ payload = ulPayload token s.ue.s_ue_info
  -- no device is used without its handle
  | .i2c_master_bus_add_device _ => s.handles.s_i2c_bus.isSome = true
  | .i2c_master_transmit device _ => (s.handles.device device).isSome = true
  -- the task finds the handles, and the city that the answers give
  | .xTaskCreate g_city_state handles => s.up = true ∧ handles = s.handles ∧ handles.Complete ∧
      g_city_state = PppAmb.cityStep token s.ue fun _ => nthAttempt s.attempts
  -- with a connection the program goes on
  | .esp_restart | .abort => s.up = false
  | _ => True

/-- The protocol of the main program. Nothing is called behind the creation of the task. -/
def protocol (token : Bytes) : Monitor Call Reply BoardState where
  allowed s c := s.started = false ∧ mayCall token s c
  next := follow

/-! ### Calls that change nothing -/

section Steps

variable {token : Bytes} {s : BoardState}

/-- The program leaves the state of the board as it is. -/
abbrev Quiet (token : Bytes) (s : BoardState) {α : Type} (p : Board α) : Prop :=
  p.Safe (protocol token) s fun _ s' => s' = s

theorem quiet_pure {α : Type} (x : α) : Quiet token s (pure x : Board α) :=
  rfl

theorem Quiet.bind {α β : Type} {p : Board α} {f : α → Board β} (hp : Quiet token s p)
    (hf : ∀ x, Quiet token s (f x)) : Quiet token s (p >>= f) := by
  refine Program.Safe.bind hp fun x s' hs' => ?_
  subst hs'
  exact hf x

theorem Quiet.safe {α β : Type} {p : Board α} {f : α → Board β} {Q : β → BoardState → Prop}
    (hp : Quiet token s p) (hf : ∀ x, (f x).Safe (protocol token) s Q) :
    (p >>= f).Safe (protocol token) s Q := by
  refine Program.Safe.bind hp fun x s' hs' => ?_
  subst hs'
  exact hf x

section Started

variable (h : s.started = false)
include h

theorem quiet_vTaskDelay (ms : ℕ) : Quiet token s (vTaskDelay ms) :=
  safe_ask ⟨h, trivial⟩ fun _ => rfl

theorem quiet_withPin {pin : Int} {act : Board Unit} (hact : Quiet token s act) :
    Quiet token s (withPin pin act) := by
  rw [withPin]
  split
  · exact Quiet.bind (safe_ask ⟨h, trivial⟩ fun _ => rfl) fun _ => hact
  · exact quiet_pure _

theorem quiet_gpio_set_level (pin : Int) (level : ℕ) :
    Quiet token s (ask (.gpio_set_level pin level)) :=
  safe_ask ⟨h, trivial⟩ fun _ => rfl

theorem quiet_pulse (pin : Int) (level ms : ℕ) : Quiet token s (pulse pin level ms) :=
  (quiet_gpio_set_level h pin level).bind fun _ => quiet_vTaskDelay h ms

theorem quiet_levels (pin : Int) (first firstMs second secondMs last : ℕ) :
    Quiet token s (levels pin first firstMs second secondMs last) :=
  (quiet_pulse h pin first firstMs).bind fun _ => (quiet_pulse h pin second secondMs).bind fun _ =>
    quiet_gpio_set_level h pin last

theorem quiet_hw_boot (c : ModemPppConfig) : Quiet token s (hw_boot c) :=
  (quiet_withPin h (quiet_gpio_set_level h _ 1)).bind fun _ =>
    (quiet_withPin h (quiet_levels h _ 0 100 1 2600 0)).bind fun _ =>
      (quiet_withPin h (quiet_gpio_set_level h _ 0)).bind fun _ =>
        (quiet_withPin h (quiet_levels h _ 1 100 0 100 1)).bind fun _ => quiet_vTaskDelay h 3000

theorem quiet_dnsFallback : Quiet token s dnsFallback := by
  refine Quiet.bind (safe_ask ⟨h, trivial⟩ fun _ => rfl) fun dmain =>
    Quiet.bind (safe_ask ⟨h, trivial⟩ fun _ => rfl) fun dbackup => ?_
  split
  · exact quiet_pure _
  · exact Quiet.bind (safe_ask ⟨h, trivial⟩ fun _ => rfl) fun _ =>
      safe_ask ⟨h, trivial⟩ fun _ => rfl

theorem quiet_force_public_dns (s_ppp_netif : Bool) :
    Quiet token s (force_public_dns s_ppp_netif) := by
  refine Quiet.bind (safe_ask ⟨h, trivial⟩ fun _ => rfl) fun _ =>
    Quiet.bind (safe_ask ⟨h, trivial⟩ fun _ => rfl) fun _ => ?_
  split
  · exact Quiet.bind (safe_ask ⟨h, trivial⟩ fun _ => rfl) fun _ =>
      safe_ask ⟨h, trivial⟩ fun _ => rfl
  · exact quiet_pure _

theorem quiet_netifName (s_ppp_netif : Bool) : Quiet token s (netifName s_ppp_netif) := by
  rw [netifName]
  split
  · exact safe_ask ⟨h, trivial⟩ fun _ => rfl
  · exact quiet_pure _

theorem quiet_destroyNetif (if_key : Bytes) : Quiet token s (destroyNetif if_key) := by
  refine Quiet.bind (safe_ask ⟨h, trivial⟩ fun _ => rfl) fun there => ?_
  split
  · exact safe_ask ⟨h, trivial⟩ fun _ => rfl
  · exact quiet_pure _

theorem quiet_wifi_hard_off : Quiet token s wifi_hard_off :=
  Quiet.bind (safe_ask ⟨h, trivial⟩ fun _ => rfl) fun _ =>
    Quiet.bind (safe_ask ⟨h, trivial⟩ fun _ => rfl) fun _ =>
      (quiet_destroyNetif h _).bind fun _ => quiet_destroyNetif h _

theorem quiet_awaitTime (n : ℕ) : Quiet token s (awaitTime n) := by
  induction n with
  | zero => exact quiet_pure _
  | succ n ih =>
      refine Quiet.bind (safe_ask ⟨h, trivial⟩ fun _ => rfl) fun now => ?_
      split
      · exact quiet_pure _
      · exact (quiet_vTaskDelay h 100).bind fun _ => ih

end Started

/-! ### The modem -/

/-- `ESP_ERROR_CHECK` is used before the connection only. -/
theorem safe_ESP_ERROR_CHECK (h : s.started = false) (hup : s.up = false) (x : EspErr) :
    (ESP_ERROR_CHECK x).Safe (protocol token) s fun _ s' => s' = s ∧ x = ESP_OK := by
  rw [ESP_ERROR_CHECK]
  split
  · rename_i hx
    exact ⟨rfl, hx⟩
  · exact ⟨⟨h, hup⟩, fun r => r.elim⟩

/-- With `ESP_OK` the modem is in the mode that was asked for. -/
theorem safe_set_mode_if_needed (h : s.started = false) (target : DceMode) :
    (set_mode_if_needed target).Safe (protocol token) s fun r s' =>
      ∃ mode, s' = { s with mode := mode } ∧ (r = ESP_OK → mode = some target) := by
  refine safe_ask_bind ⟨h, trivial⟩ fun cur => ?_
  split
  · rename_i hcur
    exact ⟨some cur, rfl, fun _ => congrArg some hcur⟩
  · refine safe_ask ⟨h, trivial⟩ fun r => ?_
    by_cases hr : r = ESP_OK
    · exact ⟨some target, by simp [protocol, follow, hr], fun _ => rfl⟩
    · by_cases htarget : target = .COMMAND
      · exact ⟨some cur, by simp [protocol, follow, hr, htarget], fun hok => absurd hok hr⟩
      · exact ⟨none, by simp [protocol, follow, hr, htarget], fun hok => absurd hok hr⟩

/-- A command that does not ask for the cell. -/
theorem quiet_at (h : s.started = false) (hmode : s.mode = some .COMMAND) {cmd : Bytes}
    (hcmd : cmd ≠ cpsiCommand) (timeout_ms : ℕ) :
    Quiet token s (ask (.esp_modem_at cmd timeout_ms)) :=
  safe_ask ⟨h, hmode⟩ fun r => by simp [protocol, follow, hcmd]

theorem quiet_modem_send_at_and_log (h : s.started = false) (hmode : s.mode = some .COMMAND)
    {cmd : Bytes} (hcmd : (if cmd.getLast? = some (ch '\r') then strlcpy cmd 64
      else snprintf (cmd ++ ascii "\r") 64) ≠ cpsiCommand) (timeout_ms : ℕ) :
    Quiet token s (modem_send_at_and_log cmd timeout_ms) := by
  refine Quiet.bind (safe_ask ⟨h, trivial⟩ fun r => ?_) fun _ =>
    Quiet.bind (quiet_at h hmode hcmd timeout_ms) fun a => quiet_pure _
  by_cases hr : r = ESP_OK
  · simp only [protocol, follow, hr, if_true, ← hmode]
  · simp only [protocol, follow, hr, if_false, if_true]

/-- `AT+CEREG?`. -/
theorem quiet_ceregLoop (h : s.started = false) (hmode : s.mode = some .COMMAND) (timeout_ms : ℕ)
    (poll_ms : ℕ+) (n elapsed : ℕ) :
    Quiet token s (ceregLoop timeout_ms poll_ms n elapsed) := by
  induction n generalizing elapsed with
  | zero => exact quiet_pure _
  | succ n ih =>
      rw [ceregLoop]
      split
      · refine Quiet.bind (quiet_at h hmode (by decide) 2000) fun a => ?_
        split
        · exact quiet_pure _
        · exact (quiet_vTaskDelay h _).bind fun _ => ih _
      · exact quiet_pure _

/-- **The loop of `AT+CPSI?`** does what the function of the answers says. -/
theorem safe_cpsiLoop (h : s.started = false) (hmode : s.mode = some .COMMAND)
    (out_len delay_ms n i : ℕ) (last : EspErr) (out : Bytes) :
    (cpsiLoop out_len delay_ms n i last out).Safe (protocol token) s fun r s' =>
      ∃ new, s' = { s with cells := s.cells ++ new } ∧ ∀ modem : ℕ → AtAnswer,
        (∀ j (hj : j < new.length), modem (i + j) = new[j]) →
          PppAmb.cpsiLoop modem out_len n i last out = r := by
  induction n generalizing s i last out with
  | zero => exact ⟨[], by rw [List.append_nil], fun _ _ => rfl⟩
  | succ n ih =>
      refine safe_ask_bind ⟨h, hmode⟩ fun a => ?_
      have hnext : (protocol token).next s ⟨.esp_modem_at (ascii "AT+CPSI?\r") 12000, a⟩
          = { s with cells := s.cells ++ [a] } := by
        simp [protocol, follow, cpsiCommand]
      rw [hnext]
      dsimp only
      split
      · rename_i hvalid
        refine ⟨[a], rfl, fun modem hmodem => ?_⟩
        have hfirst : modem i = a := hmodem 0 (by simp)
        rw [PppAmb.cpsiLoop, hfirst]
        exact if_pos hvalid
      · rename_i hinvalid
        refine Quiet.safe (quiet_vTaskDelay (s := { s with cells := s.cells ++ [a] }) h _) fun _ =>
          (ih (s := { s with cells := s.cells ++ [a] }) h hmode (i + 1) a.err _).mono ?_
        rintro r s' ⟨new, rfl, hnew⟩
        refine ⟨a :: new, by simp, fun modem hmodem => ?_⟩
        have hfirst : modem i = a := hmodem 0 (by simp)
        rw [PppAmb.cpsiLoop, hfirst]
        refine (if_neg hinvalid).trans (hnew modem fun j hj => ?_)
        have hlater := hmodem (j + 1) (by simpa using hj)
        rw [← Nat.add_assoc, Nat.add_right_comm] at hlater
        exact hlater

theorem storeCell_cpsi_con_reintentos {modem : ℕ → AtAnswer} {ue : UeState} {r : EspErr × Bytes}
    (h : PppAmb.cpsi_con_reintentos modem 128 3 = r) :
    storeCell r.1 r.2 ue = cpsiStep modem ue := by
  subst h
  rfl

/-- Behind the steps 1) and 2) the modem is in command mode, and the cell is the one of the
answers. -/
theorem safe_identify (h : s.started = false) (hup : s.up = false) (hcells : s.cells = [])
    (ue : UeState) :
    (identify ue).Safe (protocol token) s fun ue' s' =>
      ∃ new, s' = { s with mode := some .COMMAND, cells := new } ∧
        ue' = cpsiStep (nthAnswer new) ue := by
  refine Program.Safe.bind (safe_set_mode_if_needed h .COMMAND) ?_
  rintro r _ ⟨mode, rfl, hmode⟩
  refine Program.Safe.bind (safe_ESP_ERROR_CHECK (s := { s with mode := mode }) h hup r) ?_
  rintro _ _ ⟨rfl, hr⟩
  obtain rfl := hmode hr
  set s₁ : BoardState := { s with mode := some .COMMAND }
  have h₁ : s₁.started = false := h
  refine Quiet.safe (quiet_modem_send_at_and_log h₁ rfl (by decide) 3000) fun _ =>
    Quiet.safe (quiet_modem_send_at_and_log h₁ rfl (by decide) 3000) fun _ =>
      Quiet.safe (quiet_modem_send_at_and_log h₁ rfl (by decide) 3000) fun _ =>
        Quiet.safe (quiet_ceregLoop h₁ rfl 15000 500 15000 0) fun _ =>
          Program.Safe.bind (safe_cpsiLoop h₁ rfl 128 700 3 0 ESP_FAIL []) ?_
  rintro r _ ⟨new, rfl, hnew⟩
  refine ⟨new, by simp [s₁, hcells],
    storeCell_cpsi_con_reintentos (hnew (nthAnswer new) fun j hj => ?_)⟩
  simp [nthAnswer, hj]

/-- Behind step 4) the modem is in data mode. -/
theorem safe_enterDataMode (h : s.started = false) (hup : s.up = false) (use_cmux : Bool) :
    (enterDataMode use_cmux).Safe (protocol token) s fun _ s' =>
      ∃ mode, s' = { s with mode := mode } ∧ (mode = some .DATA ∨ mode = some .CMUX) := by
  refine Program.Safe.bind (safe_set_mode_if_needed h _) ?_
  rintro mode_err _ ⟨mode, rfl, hmode⟩
  split
  · refine Program.Safe.bind (safe_set_mode_if_needed (s := { s with mode := mode }) h .DATA) ?_
    rintro r _ ⟨mode', rfl, hmode'⟩
    refine (safe_ESP_ERROR_CHECK (s := { s with mode := mode' }) h hup r).mono ?_
    rintro _ _ ⟨rfl, hr⟩
    exact ⟨mode', rfl, .inl (hmode' hr)⟩
  · refine (safe_ESP_ERROR_CHECK (s := { s with mode := mode }) h hup mode_err).mono ?_
    rintro _ _ ⟨rfl, hok⟩
    refine ⟨mode, rfl, ?_⟩
    rw [hmode hok]
    cases use_cmux
    · exact .inl rfl
    · exact .inr rfl

/-- The start returns `ESP_OK` exactly with an address. -/
theorem safe_connect (h : s.started = false) (hup : s.up = false)
    (hmode : s.mode = some .COMMAND) (hhandler : s.handler = true) (use_cmux : Bool)
    (timeout_ms : Int) (st : ModemStatics) :
    (connect use_cmux timeout_ms st).Safe (protocol token) s fun r s' =>
      r.2 = st ∧ ∃ mode up, s' = { s with mode := mode, up := up } ∧
        (r.1 = ESP_OK ↔ up = true) := by
  have hcommand : ∀ cmd timeout_ms, Quiet token s (ask (.esp_modem_command cmd timeout_ms)) :=
    fun _ _ => safe_ask ⟨h, hmode⟩ fun _ => rfl
  refine Quiet.safe (hcommand _ _) fun at_ok => ?_
  split
  · rename_i hfail
    exact ⟨rfl, s.mode, false, by rw [← hup], iff_of_false hfail (by simp)⟩
  · refine Quiet.safe (hcommand _ _) fun _ => Quiet.safe (quiet_vTaskDelay h 500) fun _ =>
      Program.Safe.bind (safe_enterDataMode h hup use_cmux) ?_
    rintro _ _ ⟨mode, rfl, hdata⟩
    refine safe_ask_bind ⟨h, hhandler, hdata⟩ fun b => ?_
    split
    · rename_i hdown
      obtain rfl : b = false := by simpa using hdown
      have htimeout : ESP_ERR_TIMEOUT ≠ ESP_OK := by decide
      exact ⟨rfl, mode, false, rfl, iff_of_false htimeout (by simp)⟩
    · rename_i hb
      obtain rfl : b = true := by simpa using hb
      exact Quiet.safe (quiet_dnsFallback (s := { s with mode := mode, up := true }) h) fun _ =>
        ⟨rfl, mode, true, rfl, iff_of_true rfl rfl⟩

theorem safe_eventGroup (h : s.started = false) {s_ppp_eg : Bool} (hnull : s_ppp_eg = false) :
    (eventGroup s_ppp_eg).Safe (protocol token) s fun _ s' => s' = { s with group := true } := by
  subst hnull
  exact safe_ask ⟨h, trivial⟩ fun _ => rfl

/-- The handler is registered when there is an event group. -/
theorem safe_createNetif (h : s.started = false) (hup : s.up = false) {st : ModemStatics}
    (hnull : st.s_ppp_eg = false) :
    (createNetif st).Safe (protocol token) s fun st' s' =>
      st'.ue = st.ue ∧ s' = { s with group := true, handler := true } := by
  refine safe_ask_bind ⟨h, trivial⟩ fun _ => Program.Safe.bind (safe_eventGroup h hnull) ?_
  rintro s_ppp_eg _ rfl
  refine safe_ask_bind ⟨h, rfl⟩ fun registered => Program.Safe.bind (safe_ESP_ERROR_CHECK
    (s := { s with group := true, handler := registered = ESP_OK }) h hup _) ?_
  rintro _ _ ⟨rfl, hregistered⟩
  exact ⟨rfl, by simp [hregistered]⟩

/-- What `modem_ppp_start_blocking` does to the board. -/
structure Connected (s s' : BoardState) (st : ModemStatics) (r : EspErr × ModemStatics) : Prop where
  started : s'.started = false
  handles : s'.handles = s.handles
  attempts : s'.attempts = s.attempts
  up : r.1 = ESP_OK ↔ s'.up = true
  ue : r.1 = ESP_OK → r.2.ue = cpsiStep (nthAnswer s'.cells) st.ue

theorem safe_start (h : s.started = false) (hup : s.up = false) (hcells : s.cells = [])
    {st : ModemStatics} (hst : st.s_ppp_eg = false)
    (cfg : Option ModemPppConfig) (timeout_ms : Int) :
    (modem_ppp_start_blocking cfg timeout_ms st).Safe (protocol token) s fun r s' =>
      Connected s s' st r := by
  have hfail : ∀ {err : EspErr} {s' : BoardState} {st' : ModemStatics}, err ≠ ESP_OK →
      s'.started = false → s'.handles = s.handles → s'.attempts = s.attempts → s'.up = false →
        Connected s s' st (err, st') := fun herr hstarted hhandles hattempts hdown =>
    ⟨hstarted, hhandles, hattempts, iff_of_false herr (by simp [hdown]),
      fun hok => absurd hok herr⟩
  match cfg with
  | none => exact hfail (by decide) h rfl rfl hup
  | some cfg =>
      obtain ⟨tx, rx, rts, cts, dtr, rst, pwrkey, power, apn, use_cmux⟩ := cfg
      cases apn with
      | none => exact hfail (by decide) h rfl rfl hup
      | some apn =>
          refine safe_ask_bind ⟨h, trivial⟩ fun ppp => ?_
          split
          · exact hfail (by decide) h rfl rfl hup
          · refine Program.Safe.bind (safe_createNetif h hup hst) ?_
            rintro st₁ _ ⟨hue, rfl⟩
            set s₁ : BoardState := { s with group := true, handler := true }
            have h₁ : s₁.started = false := h
            refine Quiet.safe (quiet_hw_boot h₁ _) fun _ =>
              safe_ask_bind ⟨h₁, trivial⟩ fun dce => ?_
            split
            · exact hfail (by decide) h rfl rfl hup
            · refine safe_ask_bind ⟨h₁, trivial⟩ fun r => Program.Safe.bind
                (safe_ESP_ERROR_CHECK (s := s₁) h₁ hup r) ?_
              rintro _ _ ⟨rfl, -⟩
              refine Program.Safe.bind (safe_identify h₁ hup hcells _) ?_
              rintro ue _ ⟨new, rfl, rfl⟩
              refine (safe_connect (s := { s₁ with mode := some .COMMAND, cells := new }) h hup rfl
                rfl use_cmux timeout_ms _).mono ?_
              rintro ⟨err, st'⟩ _ ⟨rfl, mode, up, rfl, hok⟩
              exact ⟨h, rfl, rfl, hok, fun _ => by rw [hue]⟩

/-! ### The city -/

/-- **The loop of the requests** does what the function of the attempts says. -/
theorem safe_ulLoop (h : s.started = false) (hup : s.up = true)
    (hvalid : s.ue.s_ue_valid = true) (s_ppp_netif : Bool) (city_len state_len n attempt : ℕ)
    (last_err : EspErr) (p : Place) (hn : s.attempts.length + n ≤ 5) :
    (ulLoop s_ppp_netif (ulPayload token s.ue.s_ue_info) city_len state_len n attempt last_err
      p).Safe (protocol token) s fun r s' =>
        ∃ new, s' = { s with attempts := s.attempts ++ new } ∧ ∀ perform,
          Numbered perform attempt new →
            PppAmb.ulLoop perform city_len state_len n attempt last_err p = r := by
  induction n generalizing s attempt last_err p with
  | zero => exact ⟨[], by rw [List.append_nil], fun _ _ => rfl⟩
  | succ n ih =>
      rw [ulLoop]
      refine Quiet.safe (quiet_force_public_dns h _) fun _ => Quiet.safe (quiet_netifName h _)
        fun _ => safe_ask_bind ⟨h, hup⟩ fun cli => ?_
      split
      · rename_i hcli
        obtain rfl : cli = false := by simpa using hcli
        set s₁ : BoardState := { s with attempts := s.attempts ++ [none] }
        have h₁ : s₁.started = false := h
        refine Quiet.safe (quiet_vTaskDelay h₁ _) fun _ =>
          (ih h₁ hup hvalid (attempt + 1) last_err p (by simp [s₁]; omega)).mono ?_
        rintro r _ ⟨new, rfl, hnew⟩
        refine ⟨none :: new, by simp [s₁], fun perform hperform => ?_⟩
        rw [PppAmb.ulLoop, hperform.head]
        exact hnew perform hperform.tail
      · rename_i hcli
        obtain rfl : cli = true := by simpa using hcli
        have hsame : (protocol token).next s ⟨.esp_http_client_init, true⟩ = s := rfl
        rw [hsame]
        refine safe_ask_bind ⟨h, hup, by omega, hvalid, rfl⟩ fun a => ?_
        set s₁ : BoardState := { s with attempts := s.attempts ++ [some a] }
        have h₁ : s₁.started = false := h
        dsimp only
        split
        · rename_i hfound
          refine ⟨[some a], rfl, fun perform hperform => ?_⟩
          rw [PppAmb.ulLoop, hperform.head]
          exact if_pos hfound
        · rename_i hnone
          refine Quiet.safe (quiet_vTaskDelay h₁ _) fun _ =>
            (ih h₁ hup hvalid (attempt + 1) a.err _ (by simp [s₁]; omega)).mono ?_
          rintro r _ ⟨new, rfl, hnew⟩
          refine ⟨some a :: new, by simp [s₁], fun perform hperform => ?_⟩
          rw [PppAmb.ulLoop, hperform.head]
          exact (if_neg hnone).trans (hnew perform hperform.tail)

/-- The city is the one that the answers give. -/
theorem safe_cityStep (h : s.started = false) (hup : s.up = true) (hattempts : s.attempts = [])
    {st : ModemStatics} (hue : st.ue = s.ue) :
    (cityStep token st).Safe (protocol token) s fun g_city_state s' =>
      ∃ new, s' = { s with attempts := new } ∧
        g_city_state = PppAmb.cityStep token s.ue fun _ => nthAttempt new := by
  have hasked : (modem_unwiredlabs_city_state token st 64 64).Safe (protocol token) s fun r s' =>
      ∃ new, s' = { s with attempts := new } ∧ PppAmb.modem_unwiredlabs_city_state token s.ue
        (fun _ => nthAttempt new) 64 64 = r := by
    rw [modem_unwiredlabs_city_state, hue]
    split
    · rename_i hinvalid
      exact ⟨[], by rw [← hattempts], if_pos hinvalid⟩
    · rename_i hvalid
      split
      · rename_i htoken
        refine ⟨[], by rw [← hattempts], ?_⟩
        rw [PppAmb.modem_unwiredlabs_city_state, if_neg hvalid, if_pos htoken]
      · rename_i htoken
        dsimp only
        split
        · rename_i hcut
          refine ⟨[], by rw [← hattempts], ?_⟩
          rw [PppAmb.modem_unwiredlabs_city_state, if_neg hvalid, if_neg htoken]
          exact if_pos hcut
        · rename_i hfits
          have hcell : s.ue.s_ue_valid = true := by simpa using hvalid
          refine (safe_ulLoop h hup hcell _ 64 64 5 1 _ _ (by simp [hattempts])).mono ?_
          rintro r _ ⟨new, rfl, hnew⟩
          refine ⟨new, by rw [hattempts, List.nil_append], ?_⟩
          rw [PppAmb.modem_unwiredlabs_city_state, if_neg hvalid, if_neg htoken]
          exact (if_neg hfits).trans (hnew _ (numbered_getD new))
  rw [cityStep]
  split
  · rename_i htoken
    refine Program.Safe.bind hasked ?_
    rintro ⟨err, p⟩ _ ⟨new, rfl, hnew⟩
    dsimp only
    split
    · rename_i hok
      refine ⟨new, rfl, ?_⟩
      rw [PppAmb.cityStep, if_pos htoken, hnew]
      exact (if_pos hok).symm
    · rename_i hfail
      refine ⟨new, rfl, ?_⟩
      rw [PppAmb.cityStep, if_pos htoken, hnew]
      exact (if_neg hfail).symm
  · rename_i htoken
    refine ⟨[], by rw [← hattempts], ?_⟩
    rw [PppAmb.cityStep, if_neg htoken]

/-! ### The sensors -/

theorem quiet_startSensors (h : s.started = false)
    (hdevices : ∀ device, (s.handles.device device).isSome = true) :
    Quiet token s startSensors := by
  have hsend : ∀ device cmd, Quiet token s (ask (.i2c_master_transmit device cmd)) :=
    fun device _ => safe_ask ⟨h, hdevices device⟩ fun _ => rfl
  exact (quiet_vTaskDelay h 200).bind fun _ => (hsend _ _).bind fun _ =>
    (quiet_vTaskDelay h 100).bind fun _ => (hsend _ _).bind fun _ =>
      (quiet_vTaskDelay h 50).bind fun _ => (hsend _ _).bind fun _ => quiet_vTaskDelay h 5000

theorem isSome_store {H : Type} {c : Created H} {old : Option H} (h : c.ret = ESP_OK) :
    (c.store old).isSome = true := by
  rw [Created.store, if_pos h]
  rfl

theorem safe_addDevices (h : s.started = false) (hbus : s.handles.s_i2c_bus.isSome = true) :
    (addDevices s.handles).Safe (protocol token) s fun r s' =>
      ∃ handles, s' = { s with handles := handles } ∧
        (r.1 = ESP_OK → r.2 = handles ∧ handles.Complete) := by
  refine safe_ask_bind ⟨h, hbus⟩ fun scd4x => ?_
  dsimp only
  split
  · rename_i hfail
    exact ⟨_, rfl, fun hok => absurd hok hfail⟩
  · rename_i hscd
    rw [not_not] at hscd
    refine safe_ask_bind ⟨h, hbus⟩ fun sen5x => ?_
    split
    · rename_i hfail
      exact ⟨_, rfl, fun hok => absurd hok hfail⟩
    · rename_i hsen
      rw [not_not] at hsen
      set handles : Handles Unit := { s.handles with
        s_scd4x_dev := scd4x.store s.handles.s_scd4x_dev
        s_sen5x_dev := sen5x.store s.handles.s_sen5x_dev }
      have hdevices : ∀ device, (handles.device device).isSome = true := by
        rintro (_ | _)
        · exact isSome_store hscd
        · exact isSome_store hsen
      exact Quiet.safe (quiet_startSensors (s := { s with handles := handles }) h hdevices)
        fun _ => ⟨handles, rfl, fun _ => ⟨rfl, hbus, hdevices⟩⟩

/-- With `ESP_OK` all handles are there, and they are those that the driver has given. -/
theorem safe_sensors_init_all (h : s.started = false) (hhandles : s.handles = .start) :
    (sensors_init_all .start).Safe (protocol token) s fun r s' =>
      ∃ handles, s' = { s with handles := handles } ∧
        (r.1 = ESP_OK → r.2 = handles ∧ handles.Complete) := by
  refine Quiet.safe (quiet_vTaskDelay h 1500) fun _ => Quiet.safe (quiet_vTaskDelay h 1500)
    fun _ => safe_ask_bind ⟨h, trivial⟩ fun bus => ?_
  dsimp only
  split
  · rename_i hfail
    exact ⟨_, rfl, fun hok => absurd hok hfail⟩
  · rename_i hbus
    rw [not_not] at hbus
    set s₁ : BoardState := { s with
      handles := { s.handles with s_i2c_bus := bus.store s.handles.s_i2c_bus } } with hs₁
    have hsame : { (Handles.start : Handles Unit) with
        s_i2c_bus := bus.store (Handles.start : Handles Unit).s_i2c_bus } = s₁.handles := by
      rw [hs₁, hhandles]
    have hthere : s₁.handles.s_i2c_bus.isSome = true := isSome_store hbus
    have h₁ : s₁.started = false := h
    rw [hsame]
    exact safe_addDevices h₁ hthere

/-! ### The main program -/

theorem safe_initFlash (h : s.started = false) (hup : s.up = false) :
    Quiet token s initFlash := by
  have hcheck : ∀ x, Quiet token s (ESP_ERROR_CHECK x) := fun x =>
    (safe_ESP_ERROR_CHECK h hup x).mono fun _ _ hs' => hs'.1
  refine Quiet.bind (safe_ask ⟨h, trivial⟩ fun _ => rfl) fun ret => ?_
  split
  · exact Quiet.bind (safe_ask ⟨h, trivial⟩ fun _ => rfl) fun r => (hcheck r).bind fun _ =>
      Quiet.bind (safe_ask ⟨h, trivial⟩ fun _ => rfl) fun r' => hcheck r'
  · exact quiet_pure _

theorem safe_startTask (h : s.started = false) (hup : s.up = true) (hattempts : s.attempts = [])
    (hhandles : s.handles = .start) {st : ModemStatics} (hue : st.ue = s.ue) :
    (startTask token st).Safe (protocol token) s fun _ _ => True := by
  refine Quiet.safe (Quiet.bind (safe_ask ⟨h, hup⟩ fun _ => rfl) fun _ => quiet_awaitTime h 100)
    fun _ => Program.Safe.bind (safe_cityStep h hup hattempts hue) ?_
  rintro g_city_state _ ⟨new, rfl, hcity⟩
  set s₁ : BoardState := { s with attempts := new }
  have h₁ : s₁.started = false := h
  refine Quiet.safe (quiet_vTaskDelay h₁ 1500) fun _ =>
    Program.Safe.bind (safe_sensors_init_all h₁ hhandles) ?_
  rintro ⟨sret, handles'⟩ _ ⟨handles, rfl, hok⟩
  dsimp only
  split
  · trivial
  · rename_i hsret
    obtain ⟨rfl, hcomplete⟩ := hok (not_not.mp hsret)
    exact safe_ask ⟨h, hup, rfl, hcomplete, hcity⟩ fun _ => trivial

/-- The main program keeps to the protocol. -/
theorem safe_app_main (token : Bytes) :
    (app_main token).Safe (protocol token) .start fun _ _ => True := by
  have hcheck : ∀ x, Quiet token .start (ESP_ERROR_CHECK x) := fun x =>
    (safe_ESP_ERROR_CHECK rfl rfl x).mono fun _ _ hs' => hs'.1
  refine Quiet.safe (safe_initFlash rfl rfl) fun _ => Quiet.safe (safe_ask ⟨rfl, trivial⟩
    fun _ => rfl) fun r => Quiet.safe (hcheck r) fun _ => Quiet.safe (safe_ask ⟨rfl, trivial⟩
      fun _ => rfl) fun r' => Quiet.safe (hcheck r') fun _ => Quiet.safe (quiet_wifi_hard_off rfl)
        fun _ => Program.Safe.bind (safe_start rfl rfl rfl rfl (some boardConfig) 150000) ?_
  rintro ⟨mret, st⟩ s hs
  dsimp only
  split
  · rename_i hfail
    have hdown : s.up = false := by
      rw [← Bool.not_eq_true, ← hs.up]
      exact hfail
    exact Quiet.safe (quiet_vTaskDelay hs.started 3000) fun _ =>
      ⟨⟨hs.started, hdown⟩, fun r => r.elim⟩
  · rename_i hok
    rw [not_not] at hok
    exact safe_startTask hs.started (hs.up.mp hok) hs.attempts hs.handles (hs.ue hok)

end Steps

/-- The state of the board after a record. -/
def boardState {E : Type} (record : List (Entry Call Reply E)) : BoardState :=
  (calls record).foldl follow .start

end Board

end PppAmb
