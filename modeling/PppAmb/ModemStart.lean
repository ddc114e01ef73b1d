import Mathlib.Algebra.BigOperators.Ring.Finset
import Mathlib.Tactic.Ring
import PppAmb.Cereg
import PppAmb.Program
import PppAmb.SensorsInit

/-!
# Starting the Modem

`main/modem_ppp.c` up to the connection, as a program that calls ESP-IDF and esp_modem:
`hw_boot` switches the modem on, `esperar_cereg` and `cpsi_con_reintentos` ask it for the network
and the cell, and `modem_ppp_start_blocking` puts it into data mode and waits for an address.

The functions that are called are outside, and may reply anything. Times are in milliseconds.
What is only logged is left out, as are the arrays that collect it.

## Main results

* `within_start`: how long the start can take, by the timeouts of its calls.
* `esperar_cereg_takes`: how long the wait for registration takes, and with what result.
-/

namespace PppAmb

/-! ### The functions outside -/

/-- `esp_modem_dce_mode_t`. -/
inductive DceMode where
  | COMMAND
  | DATA
  | CMUX
  | other (n : ℕ)
  deriving DecidableEq

/-- `esp_netif_dns_type_t`, as far as it is used. -/
inductive DnsType where
  | MAIN
  | BACKUP
  deriving DecidableEq

/-- `esp_netif_dns_info_t`. -/
structure DnsInfo where
  isV4 : Bool
  addr : ℕ
  deriving DecidableEq

/-- `type == ESP_IPADDR_TYPE_V4 && addr != 0`. -/
def DnsInfo.usable (d : DnsInfo) : Bool :=
  d.isV4 ∧ d.addr ≠ 0

/-- An address from its four bytes, as `ipaddr_addr` packs it. -/
def ip4 (a b c d : ℕ) : ℕ :=
  a + 256 * b + 65536 * c + 16777216 * d

/-- What the program calls. `esp_restart` and `abort` do not come back. `xTaskCreate` comes with
the statics that `sensor_task` finds. -/
inductive Board.Call where
  | nvs_flash_init
  | nvs_flash_erase
  | esp_netif_init
  | esp_event_loop_create_default
  | esp_wifi_stop
  | esp_wifi_deinit
  | esp_netif_get_handle_from_ifkey (if_key : Bytes)
  | esp_netif_destroy (if_key : Bytes)
  | esp_netif_new
  | esp_netif_set_default_netif
  | xEventGroupCreate
  | esp_event_handler_register
  | gpio_set_direction (pin : Int)
  | gpio_set_level (pin : Int) (level : ℕ)
  | vTaskDelay (ms : ℕ)
  | esp_modem_new_dev (tx_io rx_io rts_io cts_io : Int) (apn : CStr)
  | esp_modem_set_apn (apn : CStr)
  | esp_modem_get_mode
  | esp_modem_set_mode (mode : DceMode)
  | esp_modem_at (cmd : Bytes) (timeout_ms : ℕ)
  | esp_modem_command (cmd : Bytes) (timeout_ms : ℕ)
  | xEventGroupWaitBits (ms : Option ℕ)
  | esp_netif_get_dns_info (type : DnsType)
  | esp_netif_set_dns_info (type : DnsType) (addr : ℕ)
  | dns_setserver (numdns addr : ℕ)
  | esp_netif_get_netif_impl_name
  | esp_http_client_init
  | esp_http_client_perform (payload : Bytes)
  | esp_sntp_init (servername : Bytes)
  | time
  | i2c_new_master_bus
  | i2c_master_bus_add_device (device : Device)
  | i2c_master_transmit (device : Device) (cmd : Bytes)
  | xTaskCreate (g_city_state : Bytes) (handles : Handles Unit)
  | esp_restart
  | abort

/-- What the calls reply. A pointer is given by whether it is there. -/
@[reducible] def Board.Reply : Board.Call → Type
  | .nvs_flash_init | .nvs_flash_erase | .esp_netif_init | .esp_event_loop_create_default
  | .esp_event_handler_register | .esp_modem_set_apn _ | .esp_modem_set_mode _
  | .esp_modem_command _ _ | .i2c_master_transmit _ _ => EspErr
  | .esp_netif_get_handle_from_ifkey _ | .esp_netif_new | .xEventGroupCreate
  | .esp_modem_new_dev _ _ _ _ _ | .esp_http_client_init | .xEventGroupWaitBits _ => Bool
  | .esp_modem_get_mode => DceMode
  | .esp_modem_at _ _ => AtAnswer
  | .esp_netif_get_dns_info _ => DnsInfo
  | .esp_http_client_perform _ => Attempt
  | .time => Int
  | .i2c_new_master_bus | .i2c_master_bus_add_device _ => Created Unit
  | .esp_restart | .abort => Empty
  | _ => Unit

/-- A program on the board. -/
abbrev Board (α : Type) := Program Board.Call Board.Reply α

namespace Board

/-- A call. -/
abbrev ask (c : Call) : Board (Reply c) :=
  Program.ask c

/-- `ESP_ERROR_CHECK`. -/
def ESP_ERROR_CHECK (x : EspErr) : Board Unit :=
  if x = ESP_OK then pure () else .call .abort Empty.elim

/-- `vTaskDelay(pdMS_TO_TICKS(ms))`. -/
def vTaskDelay (ms : ℕ) : Board Unit :=
  ask (.vTaskDelay ms)

/-- `gpio_set_level`, then a pause. -/
def pulse (pin : Int) (level ms : ℕ) : Board Unit := do
  let _ : Unit ← ask (.gpio_set_level pin level)
  vTaskDelay ms

end Board

/-! ### Power -/

/-- `modem_ppp_config_t`; a null pointer is `none`. -/
structure ModemPppConfig where
  tx_io : Int
  rx_io : Int
  rts_io : Int
  cts_io : Int
  dtr_io : Int
  rst_io : Int
  pwrkey_io : Int
  board_power_io : Int
  apn : Option CStr
  use_cmux : Bool

namespace Board

/-- What is done with a pin that is there. -/
def withPin (pin : Int) (act : Board Unit) : Board Unit :=
  if 0 ≤ pin then do
    let _ : Unit ← ask (.gpio_set_direction pin)
    act
  else pure ()

/-- A level, two pauses with a level before each, and the last level. -/
def levels (pin : Int) (first firstMs second secondMs last : ℕ) : Board Unit := do
  pulse pin first firstMs
  pulse pin second secondMs
  ask (.gpio_set_level pin last)

/-- `hw_boot`. -/
def hw_boot (c : ModemPppConfig) : Board Unit := do
  withPin c.board_power_io (ask (.gpio_set_level c.board_power_io 1))
  withPin c.rst_io (levels c.rst_io 0 100 1 2600 0)
  withPin c.dtr_io (ask (.gpio_set_level c.dtr_io 0))
  withPin c.pwrkey_io (levels c.pwrkey_io 1 100 0 100 1)
  vTaskDelay 3000

/-! ### Commands -/

/-- `modem_send_at_and_log`. -/
def modem_send_at_and_log (cmd : Bytes) (timeout_ms : ℕ) : Board EspErr := do
  let cmd_cr := if cmd.getLast? = some (ch '\r') then strlcpy cmd 64
    else snprintf (cmd ++ ascii "\r") 64
  let _ : EspErr ← ask (.esp_modem_set_mode .COMMAND)
  let a : AtAnswer ← ask (.esp_modem_at cmd_cr timeout_ms)
  pure a.err

/-- `set_mode_if_needed`. -/
def set_mode_if_needed (target : DceMode) : Board EspErr := do
  let cur : DceMode ← ask .esp_modem_get_mode
  if cur = target then pure ESP_OK else ask (.esp_modem_set_mode target)

/-- The polls of `esperar_cereg`. The first argument bounds their number. -/
def ceregLoop (timeout_ms : ℕ) (poll_ms : ℕ+) : ℕ → ℕ → Board EspErr
  | 0, _ => pure ESP_ERR_TIMEOUT
  | n + 1, elapsed =>
      if elapsed < timeout_ms then do
        let a : AtAnswer ← ask (.esp_modem_at (ascii "AT+CEREG?\r") 2000)
        if a.looksRegistered then pure ESP_OK
        else do
          vTaskDelay poll_ms
          ceregLoop timeout_ms poll_ms n (elapsed + poll_ms)
      else pure ESP_ERR_TIMEOUT

/-- `esperar_cereg`. -/
def esperar_cereg (timeout_ms : ℕ) (poll_ms : ℕ+) : Board EspErr :=
  ceregLoop timeout_ms poll_ms timeout_ms 0

/-- The attempts of `cpsi_con_reintentos` from number `i` on, with the number that are left, the
last error and the contents of `out`. -/
def cpsiLoop (out_len delay_ms : ℕ) : ℕ → ℕ → EspErr → Bytes → Board (EspErr × Bytes)
  | 0, _, last, out => pure (if last = ESP_OK then ESP_FAIL else last, strlcpy out out_len)
  | n + 1, i, _, _ => do
      let a : AtAnswer ← ask (.esp_modem_at (ascii "AT+CPSI?\r") 12000)
      let out := strlcpy a.text.bytes 256
      if a.err = ESP_OK ∧ cpsi_se_ve_valido out then pure (ESP_OK, strlcpy out out_len)
      else do
        vTaskDelay (delay_ms + i * delay_ms)
        cpsiLoop out_len delay_ms n (i + 1) a.err out

/-- `cpsi_con_reintentos`: the error code and `out_final`. -/
def cpsi_con_reintentos (out_len intentos delay_ms : ℕ) : Board (EspErr × Bytes) :=
  cpsiLoop out_len delay_ms intentos 0 ESP_FAIL []

/-! ### The start -/

/-- What `modem_ppp_start_blocking` makes of the report of the cell. -/
def storeCell (cpsi_ok : EspErr) (cpsi : Bytes) (ue : UeState) : UeState :=
  if cpsi_ok = ESP_OK then
    match parse_cpsi_line cpsi with
    | some info =>
        if cpsi_se_ve_valido cpsi then ⟨info, true⟩ else { ue with s_ue_valid := false }
    | none => { ue with s_ue_valid := false }
  else { ue with s_ue_valid := false }

end Board

/-- The statics of `main/modem_ppp.c`: whether there are an event group and a network interface,
and the cell. -/
structure ModemStatics where
  s_ppp_eg : Bool
  s_ppp_netif : Bool
  ue : UeState

namespace Board

/-- The steps 1) and 2) of `modem_ppp_start_blocking`: command mode, registration and cell. -/
def identify (ue : UeState) : Board UeState := do
  ESP_ERROR_CHECK (← set_mode_if_needed .COMMAND)
  let _ ← modem_send_at_and_log (ascii "AT") 3000
  let _ ← modem_send_at_and_log (ascii "ATE0") 3000
  let _ ← modem_send_at_and_log (ascii "AT+CMEE=2") 3000
  let _ ← esperar_cereg 15000 500
  let (cpsi_ok, cpsi) ← cpsi_con_reintentos 128 3 700
  pure (storeCell cpsi_ok cpsi ue)

/-- Step 4) of `modem_ppp_start_blocking`: data mode, or what was asked for. -/
def enterDataMode (use_cmux : Bool) : Board Unit := do
  let mode_err ← set_mode_if_needed (if use_cmux then .CMUX else .DATA)
  if mode_err ≠ ESP_OK ∧ use_cmux then do
    ESP_ERROR_CHECK (← set_mode_if_needed .DATA)
  else ESP_ERROR_CHECK mode_err

/-- The servers that are set if the network has named none. -/
def dnsFallback : Board Unit := do
  let dmain : DnsInfo ← ask (.esp_netif_get_dns_info .MAIN)
  let dbackup : DnsInfo ← ask (.esp_netif_get_dns_info .BACKUP)
  if dmain.usable ∨ dbackup.usable then pure ()
  else do
    let _ : Unit ← ask (.esp_netif_set_dns_info .MAIN (ip4 1 1 1 1))
    ask (.esp_netif_set_dns_info .BACKUP (ip4 8 8 8 8))

/-- `if (!s_ppp_eg) s_ppp_eg = xEventGroupCreate();`. -/
def eventGroup (s_ppp_eg : Bool) : Board Bool :=
  if s_ppp_eg then pure true else ask .xEventGroupCreate

/-- The interface, the event group and the handler of the IP events, behind `esp_netif_new`. -/
def createNetif (s : ModemStatics) : Board ModemStatics := do
  let _ : Unit ← ask .esp_netif_set_default_netif
  let s_ppp_eg ← eventGroup s.s_ppp_eg
  ESP_ERROR_CHECK (← ask .esp_event_handler_register)
  pure { s with s_ppp_eg := s_ppp_eg, s_ppp_netif := true }

/-- Step 3) of `modem_ppp_start_blocking` and what follows it. -/
def connect (use_cmux : Bool) (timeout_ms : Int) (s : ModemStatics) :
    Board (EspErr × ModemStatics) := do
  let at_ok : EspErr ← ask (.esp_modem_command (ascii "AT\r") 1000)
  if at_ok ≠ ESP_OK then pure (at_ok, s)
  else do
    let _ : EspErr ← ask (.esp_modem_command (ascii "ATE0\r") 1000)
    vTaskDelay 500
    enterDataMode use_cmux
    let b : Bool ←
      ask (.xEventGroupWaitBits (if timeout_ms > 0 then some timeout_ms.toNat else none))
    if ¬ b then pure (ESP_ERR_TIMEOUT, s)
    else do
      dnsFallback
      pure (ESP_OK, s)

/-- `modem_ppp_start_blocking`. -/
def modem_ppp_start_blocking (cfg : Option ModemPppConfig) (timeout_ms : Int) (s : ModemStatics) :
    Board (EspErr × ModemStatics) :=
  match cfg with
  | none => pure (ESP_ERR_INVALID_ARG, s)
  | some cfg =>
      match cfg.apn with
      | none => pure (ESP_ERR_INVALID_ARG, s)
      | some apn => do
          let ppp : Bool ← ask .esp_netif_new
          if ¬ ppp then pure (ESP_FAIL, s)
          else do
            let s ← createNetif s
            hw_boot cfg
            let dce : Bool ← ask (.esp_modem_new_dev cfg.tx_io cfg.rx_io cfg.rts_io cfg.cts_io apn)
            if ¬ dce then pure (ESP_FAIL, s)
            else do
              ESP_ERROR_CHECK (← ask (.esp_modem_set_apn apn))
              let ue ← identify s.ue
              connect cfg.use_cmux timeout_ms { s with ue := ue }

/-! ### How long the start can take -/

/-- The time, in milliseconds, that a call is given: its pause or its timeout. Other calls are not
counted. -/
def wait : Call → ℕ
  | .vTaskDelay ms => ms
  | .esp_modem_at _ timeout_ms => timeout_ms
  | .esp_modem_command _ timeout_ms => timeout_ms
  | .xEventGroupWaitBits (some ms) => ms
  | .esp_http_client_perform _ => 20000
  | .i2c_master_transmit _ _ => 1000
  | _ => 0

theorem within_vTaskDelay (ms : ℕ) : (vTaskDelay ms).Within wait ms :=
  within_ask _ 0

theorem within_ESP_ERROR_CHECK (x : EspErr) : (ESP_ERROR_CHECK x).Within wait 0 := by
  rw [ESP_ERROR_CHECK]
  split
  · exact within_done _ _
  · exact within_call (n := 0) fun r => r.elim

theorem within_withPin {pin : Int} {act : Board Unit} {n : ℕ} (h : act.Within wait n) :
    (withPin pin act).Within wait n := by
  rw [withPin]
  split
  · exact (within_ask_bind fun _ => h).mono (by simp [wait])
  · exact within_done _ _

theorem within_pulse (pin : Int) (level ms : ℕ) : (pulse pin level ms).Within wait ms :=
  (within_ask_bind fun _ => within_vTaskDelay ms).mono (by simp [wait])

theorem within_gpio_set_level (pin : Int) (level : ℕ) :
    (ask (.gpio_set_level pin level)).Within wait 0 :=
  within_ask _ 0

theorem within_levels (pin : Int) (first firstMs second secondMs last : ℕ) :
    (levels pin first firstMs second secondMs last).Within wait (firstMs + secondMs) :=
  (within_pulse pin first firstMs).bind fun _ =>
    (within_pulse pin second secondMs).bind fun _ => within_gpio_set_level pin last

theorem within_hw_boot (c : ModemPppConfig) : (hw_boot c).Within wait 5900 :=
  (within_withPin (within_gpio_set_level _ 1)).bind fun _ =>
    (within_withPin (within_levels _ 0 100 1 2600 0)).bind fun _ =>
      (within_withPin (within_gpio_set_level _ 0)).bind fun _ =>
        (within_withPin (within_levels _ 1 100 0 100 1)).bind fun _ => within_vTaskDelay 3000

theorem within_modem_send_at_and_log (cmd : Bytes) (timeout_ms : ℕ) :
    (modem_send_at_and_log cmd timeout_ms).Within wait timeout_ms :=
  (within_ask_bind fun _ => within_ask_bind fun _ => within_done _ 0).mono (by simp [wait])

theorem within_set_mode_if_needed (target : DceMode) :
    (set_mode_if_needed target).Within wait 0 := by
  refine within_ask_bind (n := 0) fun cur => ?_
  split
  · exact within_done _ _
  · exact within_ask _ 0

/-- A round of the loop counts its pause only, so it can take longer than it is given. -/
theorem within_ceregLoop (timeout_ms : ℕ) (poll_ms : ℕ+) (n elapsed k : ℕ)
    (hk : timeout_ms ≤ elapsed + k * poll_ms) :
    (ceregLoop timeout_ms poll_ms n elapsed).Within wait (k * (2000 + poll_ms)) := by
  induction n generalizing elapsed k with
  | zero => exact within_done _ _
  | succ n ih =>
      rw [ceregLoop]
      split
      · rename_i htime
        have hk0 : k ≠ 0 := by
          rintro rfl
          omega
        obtain ⟨k, rfl⟩ := Nat.exists_eq_add_one_of_ne_zero hk0
        have hround : (k + 1) * (2000 + (poll_ms : ℕ))
            = 2000 + (poll_ms + k * (2000 + poll_ms)) := by ring
        rw [hround]
        refine within_ask_bind fun a => ?_
        split
        · exact within_done _ _
        · refine (within_vTaskDelay _).bind fun _ => ih _ k ?_
          rw [Nat.add_mul] at hk
          omega
      · exact within_done _ _

theorem within_cpsiLoop (out_len delay_ms n i : ℕ) (last : EspErr) (out : Bytes) :
    (cpsiLoop out_len delay_ms n i last out).Within wait
      (12000 * n + delay_ms * ∑ j ∈ Finset.range n, (i + j + 1)) := by
  induction n generalizing i last out with
  | zero => exact within_done _ _
  | succ n ih =>
      have hround : 12000 * (n + 1) + delay_ms * ∑ j ∈ Finset.range (n + 1), (i + j + 1)
          = 12000 + (delay_ms + i * delay_ms
            + (12000 * n + delay_ms * ∑ j ∈ Finset.range n, (i + 1 + j + 1))) := by
        have hshift : ∑ j ∈ Finset.range n, (i + (j + 1) + 1)
            = ∑ j ∈ Finset.range n, (i + 1 + j + 1) :=
          Finset.sum_congr rfl fun j _ => by ring
        rw [Finset.sum_range_succ', hshift]
        ring
      rw [hround, cpsiLoop]
      refine within_ask_bind fun a => ?_
      dsimp only
      split
      · exact within_done _ _
      · exact (within_vTaskDelay _).bind fun _ => ih _ _ _

theorem within_identify (ue : UeState) : (identify ue).Within wait 124200 := by
  have hcereg : (esperar_cereg 15000 500).Within wait 75000 :=
    within_ceregLoop 15000 500 15000 0 30 (by decide)
  have hcpsi : (cpsi_con_reintentos 128 3 700).Within wait 40200 :=
    within_cpsiLoop 128 700 3 0 ESP_FAIL []
  exact (within_set_mode_if_needed _).bind fun _ => (within_ESP_ERROR_CHECK _).bind fun _ =>
    (within_modem_send_at_and_log _ 3000).bind fun _ =>
    (within_modem_send_at_and_log _ 3000).bind fun _ =>
    (within_modem_send_at_and_log _ 3000).bind fun _ => hcereg.bind fun _ =>
    hcpsi.bind fun _ => within_done _ 0

theorem within_enterDataMode (use_cmux : Bool) : (enterDataMode use_cmux).Within wait 0 := by
  refine Program.Within.bind (n := 0) (within_set_mode_if_needed _) fun mode_err => ?_
  split
  · exact (within_set_mode_if_needed _).bind fun _ => within_ESP_ERROR_CHECK _
  · exact within_ESP_ERROR_CHECK _

theorem within_dnsFallback : dnsFallback.Within wait 0 := by
  refine within_ask_bind (n := 0) fun dmain => within_ask_bind (n := 0) fun dbackup => ?_
  split
  · exact within_done _ _
  · exact within_ask_bind (n := 0) fun _ => within_ask _ 0

theorem within_eventGroup (s_ppp_eg : Bool) : (eventGroup s_ppp_eg).Within wait 0 := by
  rw [eventGroup]
  split
  · exact within_done _ _
  · exact within_ask _ 0

theorem within_createNetif (s : ModemStatics) : (createNetif s).Within wait 0 :=
  within_ask_bind (n := 0) fun _ => Program.Within.bind (n := 0) (within_eventGroup _) fun _ =>
    within_ask_bind (n := 0) fun _ => (within_ESP_ERROR_CHECK _).bind fun _ => within_done _ 0

theorem within_connect (use_cmux : Bool) {timeout_ms : Int} (htimeout : 0 < timeout_ms)
    (s : ModemStatics) :
    (connect use_cmux timeout_ms s).Within wait (2500 + timeout_ms.toNat) := by
  have hwaits : 2500 + timeout_ms.toNat = 1000 + (1000 + (500 + (0 + (timeout_ms.toNat + 0)))) := by
    omega
  rw [hwaits]
  refine within_ask_bind fun at_ok => ?_
  split
  · exact within_done _ _
  · refine within_ask_bind fun _ => (within_vTaskDelay 500).bind fun _ =>
      (within_enterDataMode _).bind fun _ => ?_
    rw [if_pos htimeout]
    refine within_ask_bind fun b => ?_
    split
    · exact within_done _ _
    · exact within_dnsFallback.bind fun _ => within_done _ 0

/-- The start waits no longer than its calls may take together. -/
theorem within_start (cfg : Option ModemPppConfig) {timeout_ms : Int} (htimeout : 0 < timeout_ms)
    (s : ModemStatics) :
    (modem_ppp_start_blocking cfg timeout_ms s).Within wait (132600 + timeout_ms.toNat) := by
  have hwaits : 132600 + timeout_ms.toNat
      = 0 + (0 + (5900 + (0 + (0 + (0 + (124200 + (2500 + timeout_ms.toNat))))))) := by
    omega
  rw [hwaits]
  match cfg with
  | none => exact within_done _ _
  | some cfg =>
      obtain ⟨tx, rx, rts, cts, dtr, rst, pwrkey, power, apn, use_cmux⟩ := cfg
      cases apn with
      | none => exact within_done _ _
      | some apn =>
          refine within_ask_bind fun ppp => ?_
          split
          · exact within_done _ _
          · refine (within_createNetif s).bind fun s => (within_hw_boot _).bind fun _ =>
              within_ask_bind fun dce => ?_
            split
            · exact within_done _ _
            · exact within_ask_bind fun _ => (within_ESP_ERROR_CHECK _).bind fun _ =>
                (within_identify s.ue).bind fun ue => within_connect use_cmux htimeout _

/-! ### How long the wait for registration takes -/

/-- How many polls fit in before the time is up. -/
def pollsLeft (timeout_ms : ℕ) (poll_ms : ℕ+) (elapsed : ℕ) : ℕ :=
  (timeout_ms - elapsed + poll_ms - 1) / poll_ms

theorem pollsLeft_of_le {timeout_ms elapsed : ℕ} (poll_ms : ℕ+) (h : timeout_ms ≤ elapsed) :
    pollsLeft timeout_ms poll_ms elapsed = 0 := by
  have hpos : 0 < (poll_ms : ℕ) := poll_ms.pos
  exact Nat.div_eq_of_lt (by omega)

theorem pollsLeft_of_lt {timeout_ms elapsed : ℕ} (poll_ms : ℕ+) (h : elapsed < timeout_ms) :
    pollsLeft timeout_ms poll_ms elapsed
      = pollsLeft timeout_ms poll_ms (elapsed + poll_ms) + 1 := by
  have hpos : 0 < (poll_ms : ℕ) := poll_ms.pos
  by_cases hlast : timeout_ms ≤ elapsed + poll_ms
  · rw [pollsLeft_of_le poll_ms hlast, pollsLeft]
    exact Nat.div_eq_of_lt_le (by omega) (by omega)
  · have hsplit : timeout_ms - elapsed + poll_ms - 1
        = timeout_ms - (elapsed + poll_ms) + poll_ms - 1 + poll_ms := by
      omega
    rw [pollsLeft, hsplit, Nat.add_div_right _ hpos, pollsLeft]

/-- The time that is taken by the polls that are left: all of them, or up to the one that looks
registered. -/
theorem ceregLoop_takes {timeout_ms : ℕ} {poll_ms : ℕ+} {n elapsed : ℕ}
    (hn : timeout_ms ≤ n + elapsed) {log : List (Answered Call Reply)} {r : EspErr}
    (h : (ceregLoop timeout_ms poll_ms n elapsed).Returns log r) :
    (r = ESP_ERR_TIMEOUT ∧
        cost wait log = pollsLeft timeout_ms poll_ms elapsed * (2000 + poll_ms)) ∨
      (r = ESP_OK ∧ ∃ k < pollsLeft timeout_ms poll_ms elapsed,
        cost wait log = k * (2000 + poll_ms) + 2000) := by
  induction n generalizing elapsed log with
  | zero =>
      obtain ⟨rfl, rfl⟩ := returns_done.mp h
      rw [pollsLeft_of_le poll_ms (by omega), Nat.zero_mul]
      exact .inl ⟨rfl, rfl⟩
  | succ n ih =>
      rw [ceregLoop] at h
      split at h
      · rename_i htime
        rw [pollsLeft_of_lt poll_ms htime]
        obtain ⟨a, log, rfl, hpoll⟩ := returns_ask_bind.mp h
        split at hpoll
        · obtain ⟨rfl, rfl⟩ := returns_done.mp hpoll
          exact .inr ⟨rfl, 0, Nat.zero_lt_succ _, by simp [cost, wait]⟩
        · obtain ⟨_, log, rfl, hnext⟩ := returns_ask_bind.mp hpoll
          have hpos : 0 < (poll_ms : ℕ) := poll_ms.pos
          have hround : cost wait (⟨.esp_modem_at (ascii "AT+CEREG?\r") 2000, a⟩ ::
              ⟨.vTaskDelay poll_ms, ()⟩ :: log) = (2000 + poll_ms) + cost wait log := by
            simp only [cost, wait, Nat.add_assoc]
          rw [hround]
          rcases ih (by omega) hnext with ⟨rfl, hcost⟩ | ⟨rfl, k, hk, hcost⟩
          · exact .inl ⟨rfl, by rw [hcost]; ring⟩
          · exact .inr ⟨rfl, k + 1, Nat.add_lt_add_right hk 1, by rw [hcost]; ring⟩
      · rename_i htime
        obtain ⟨rfl, rfl⟩ := returns_done.mp h
        rw [pollsLeft_of_le poll_ms (by omega), Nat.zero_mul]
        exact .inl ⟨rfl, rfl⟩

/-- **The wait for registration takes longer than it is given.** Only its pauses are counted, so
with no registration it takes as many polls of two seconds as pauses fit into the time it is
given; and a registration ends it at the poll that sees it. -/
theorem esperar_cereg_takes {timeout_ms : ℕ} {poll_ms : ℕ+} {log : List (Answered Call Reply)}
    {r : EspErr} (h : (esperar_cereg timeout_ms poll_ms).Returns log r) :
    (r = ESP_ERR_TIMEOUT ∧
        cost wait log = (timeout_ms + poll_ms - 1) / poll_ms * (2000 + poll_ms)) ∨
      (r = ESP_OK ∧ ∃ k < (timeout_ms + poll_ms - 1) / (poll_ms : ℕ),
        cost wait log = k * (2000 + poll_ms) + 2000) := by
  have hpolls : timeout_ms ≤ timeout_ms + 0 := le_rfl
  exact ceregLoop_takes hpolls h

/-- A modem that never tells of a registration. -/
def silentModem : (c : Call) → Option (Reply c)
  | .esp_modem_at _ _ => some ⟨ESP_OK, .of (ascii "+CEREG: 0,2")⟩
  | .vTaskDelay _ => some ()
  | _ => none

/-- With the times of `modem_ppp_start_blocking` the wait takes 75 seconds instead of 15. -/
theorem esperar_cereg_takes_silent :
    ∃ log, (esperar_cereg 15000 500).Returns log ESP_ERR_TIMEOUT ∧ cost wait log = 75000 := by
  have hrun : (esperar_cereg 15000 500).Returns ((esperar_cereg 15000 500).runWith silentModem).1
      ESP_ERR_TIMEOUT :=
    runs_runWith silentModem (esperar_cereg 15000 500)
  refine ⟨_, hrun, ?_⟩
  rcases esperar_cereg_takes hrun with ⟨-, hcost⟩ | ⟨hok, -⟩
  · exact hcost
  · exact absurd hok (by decide)

end Board

end PppAmb
