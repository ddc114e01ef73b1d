import PppAmb.City
import PppAmb.ModemStart

/-!
# The Main Program

`app_main` of `main/main.c`, as a program that calls ESP-IDF: it connects, sets the clock, asks
for the city, sets up the sensors and starts the task that samples and sends.

## Main results

* `app_main_waits`: how long it can take until the task is started or the board restarts.
-/

namespace PppAmb

namespace Board

/-! ### Before the connection -/

/-- `ESP_ERR_NVS_NO_FREE_PAGES`. -/
def ESP_ERR_NVS_NO_FREE_PAGES : EspErr := 0x110d

/-- `ESP_ERR_NVS_NEW_VERSION_FOUND`. -/
def ESP_ERR_NVS_NEW_VERSION_FOUND : EspErr := 0x1110

/-- The flash is erased if it has to be. -/
def initFlash : Board Unit := do
  let ret : EspErr ← ask .nvs_flash_init
  if ret = ESP_ERR_NVS_NO_FREE_PAGES ∨ ret = ESP_ERR_NVS_NEW_VERSION_FOUND then do
    ESP_ERROR_CHECK (← ask .nvs_flash_erase)
    ESP_ERROR_CHECK (← ask .nvs_flash_init)
  else pure ()

/-- An interface of the WiFi is destroyed if it is there. -/
def destroyNetif (if_key : Bytes) : Board Unit := do
  let there : Bool ← ask (.esp_netif_get_handle_from_ifkey if_key)
  if there then ask (.esp_netif_destroy if_key) else pure ()

/-- `wifi_hard_off`. -/
def wifi_hard_off : Board Unit := do
  let _ : Unit ← ask .esp_wifi_stop
  let _ : Unit ← ask .esp_wifi_deinit
  destroyNetif (ascii "WIFI_STA_DEF")
  destroyNetif (ascii "WIFI_AP_DEF")

/-! ### The clock -/

/-- The loop of `init_sntp_and_time`. -/
def awaitTime : ℕ → Board Unit
  | 0 => pure ()
  | n + 1 => do
      let now : Int ← ask .time
      if now > 1609459200 then pure ()
      else do
        vTaskDelay 100
        awaitTime n

/-- `init_sntp_and_time`. -/
def init_sntp_and_time : Board Unit := do
  let _ : Unit ← ask (.esp_sntp_init (ascii "pool.ntp.org"))
  awaitTime 100

/-! ### The city -/

/-- `force_public_dns`. -/
def force_public_dns (s_ppp_netif : Bool) : Board Unit := do
  let _ : Unit ← ask (.dns_setserver 0 (ip4 1 1 1 1))
  let _ : Unit ← ask (.dns_setserver 1 (ip4 8 8 8 8))
  if s_ppp_netif then do
    let _ : Unit ← ask (.esp_netif_set_dns_info .MAIN (ip4 1 1 1 1))
    ask (.esp_netif_set_dns_info .BACKUP (ip4 8 8 8 8))
  else pure ()

/-- The name of the interface the client is bound to. -/
def netifName (s_ppp_netif : Bool) : Board Unit :=
  if s_ppp_netif then ask .esp_netif_get_netif_impl_name else pure ()

/-- The attempts from one on, with the number that are left, `last_err` and the arrays. -/
def ulLoop (s_ppp_netif : Bool) (payload : Bytes) (city_len state_len : ℕ) :
    ℕ → ℕ → EspErr → Place → Board (EspErr × Place)
  | 0, _, last_err, p => pure (if last_err ≠ ESP_OK then last_err else ESP_FAIL, p)
  | n + 1, attempt, last_err, p => do
      force_public_dns s_ppp_netif
      netifName s_ppp_netif
      let cli : Bool ← ask .esp_http_client_init
      if ¬ cli then do
        vTaskDelay (1000 * attempt)
        ulLoop s_ppp_netif payload city_len state_len n (attempt + 1) last_err p
      else do
        let a : Attempt ← ask (.esp_http_client_perform payload)
        let p := a.place city_len state_len p
        if a.answered ∧ p.found then pure (ESP_OK, p)
        else do
          vTaskDelay (500 * attempt)
          ulLoop s_ppp_netif payload city_len state_len n (attempt + 1) a.err p

/-- `modem_unwiredlabs_city_state`: the error code and the arrays. -/
def modem_unwiredlabs_city_state (token : Bytes) (s : ModemStatics) (city_len state_len : ℕ) :
    Board (EspErr × Place) :=
  if s.ue.s_ue_valid = false then pure (ESP_FAIL, .empty)
  else if token = [] then pure (ESP_ERR_INVALID_ARG, .empty)
  else
    let payload := ulPayload token s.ue.s_ue_info
    if payload.length ≥ 256 then pure (ESP_FAIL, .empty)
    else ulLoop s.s_ppp_netif payload city_len state_len 5 1 ESP_FAIL .empty

/-- The third step of `app_main`: `g_city_state` afterwards. -/
def cityStep (token : Bytes) (s : ModemStatics) : Board Bytes :=
  if token ≠ [] then do
    let (err, p) ← modem_unwiredlabs_city_state token s 64 64
    if err = ESP_OK then pure (sensors_set_city_state (build_city_hyphen 64 p.city p.state))
    else pure (sensors_set_city_state (ascii "----"))
  else pure (sensors_set_city_state (ascii "----"))

/-! ### The sensors -/

/-- The start-up commands of the sensors; what they return is dropped. -/
def startSensors : Board Unit := do
  vTaskDelay 200
  let _ : EspErr ← ask (.i2c_master_transmit .sen5x [0xD3, 0x04])
  vTaskDelay 100
  let _ : EspErr ← ask (.i2c_master_transmit .sen5x [0x00, 0x21])
  vTaskDelay 50
  let _ : EspErr ← ask (.i2c_master_transmit .scd4x [0x21, 0xB1])
  vTaskDelay 5000

/-- The handles of the devices, behind the bus. -/
def addDevices (s : Handles Unit) : Board (EspErr × Handles Unit) := do
  let scd4x : Created Unit ← ask (.i2c_master_bus_add_device .scd4x)
  let s := { s with s_scd4x_dev := scd4x.store s.s_scd4x_dev }
  if scd4x.ret ≠ ESP_OK then pure (scd4x.ret, s)
  else do
    let sen5x : Created Unit ← ask (.i2c_master_bus_add_device .sen5x)
    let s := { s with s_sen5x_dev := sen5x.store s.s_sen5x_dev }
    if sen5x.ret ≠ ESP_OK then pure (sen5x.ret, s)
    else do
      startSensors
      pure (ESP_OK, s)

/-- `sensors_init_all`. -/
def sensors_init_all (s : Handles Unit) : Board (EspErr × Handles Unit) := do
  vTaskDelay 1500
  if s.s_i2c_bus.isSome then pure (ESP_OK, s)
  else do
    vTaskDelay 1500
    let bus : Created Unit ← ask .i2c_new_master_bus
    let s := { s with s_i2c_bus := bus.store s.s_i2c_bus }
    if bus.ret ≠ ESP_OK then pure (bus.ret, s) else addDevices s

/-! ### The program -/

/-- The pins of the board. -/
def boardConfig : ModemPppConfig where
  tx_io := 26
  rx_io := 27
  rts_io := -1
  cts_io := -1
  dtr_io := 25
  rst_io := 5
  pwrkey_io := 4
  board_power_io := 12
  apn := some (.of (ascii "internet.itelcel.com"))
  use_cmux := false

/-- The statics when the program starts. -/
def staticsAtStart : ModemStatics :=
  ⟨false, false, ⟨⟨0, 0, 0, 0, false⟩, false⟩⟩

/-- The steps 2) to 4) of `app_main`, with a connection. -/
def startTask (token : Bytes) (s : ModemStatics) : Board Unit := do
  init_sntp_and_time
  let g_city_state ← cityStep token s
  vTaskDelay 1500
  let (sret, handles) ← sensors_init_all .start
  if sret ≠ ESP_OK then pure () else ask (.xTaskCreate g_city_state handles)

/-- `app_main`, for a build with the given `UNWIREDLABS_TOKEN`. -/
def app_main (token : Bytes) : Board Unit := do
  initFlash
  ESP_ERROR_CHECK (← ask .esp_netif_init)
  ESP_ERROR_CHECK (← ask .esp_event_loop_create_default)
  wifi_hard_off
  let (mret, s) ← modem_ppp_start_blocking (some boardConfig) 150000 staticsAtStart
  if mret ≠ ESP_OK then do
    vTaskDelay 3000
    .call .esp_restart Empty.elim
  else startTask token s

/-! ### How long it can take -/

theorem within_initFlash : initFlash.Within wait 0 := by
  refine within_ask_bind (n := 0) fun ret => ?_
  split
  · exact within_ask_bind (n := 0) fun _ => Program.Within.bind (n := 0)
      (within_ESP_ERROR_CHECK _) fun _ => within_ask_bind (n := 0) fun _ =>
        within_ESP_ERROR_CHECK _
  · exact within_done _ _

theorem within_destroyNetif (if_key : Bytes) : (destroyNetif if_key).Within wait 0 := by
  refine within_ask_bind (n := 0) fun there => ?_
  split
  · exact within_ask _ 0
  · exact within_done _ _

theorem within_wifi_hard_off : wifi_hard_off.Within wait 0 :=
  within_ask_bind (n := 0) fun _ => within_ask_bind (n := 0) fun _ =>
    Program.Within.bind (n := 0) (within_destroyNetif _) fun _ => within_destroyNetif _

theorem within_awaitTime (n : ℕ) : (awaitTime n).Within wait (100 * n) := by
  induction n with
  | zero => exact within_done _ _
  | succ n ih =>
      have hround : 100 * (n + 1) = 0 + (100 + 100 * n) := by omega
      rw [hround]
      refine within_ask_bind fun now => ?_
      split
      · exact within_done _ _
      · exact (within_vTaskDelay 100).bind fun _ => ih

theorem within_init_sntp_and_time : init_sntp_and_time.Within wait 10000 :=
  within_ask_bind (n := 10000) fun _ => within_awaitTime 100

theorem within_force_public_dns (s_ppp_netif : Bool) :
    (force_public_dns s_ppp_netif).Within wait 0 := by
  refine within_ask_bind (n := 0) fun _ => within_ask_bind (n := 0) fun _ => ?_
  split
  · exact within_ask_bind (n := 0) fun _ => within_ask _ 0
  · exact within_done _ _

theorem within_netifName (s_ppp_netif : Bool) : (netifName s_ppp_netif).Within wait 0 := by
  rw [netifName]
  split
  · exact within_ask _ 0
  · exact within_done _ _

/-- An attempt takes at most 20 s for its request and half a second for each attempt so far, or
one second for each if there is no client. -/
theorem within_ulLoop (s_ppp_netif : Bool) (payload : Bytes) (city_len state_len n attempt : ℕ)
    (last_err : EspErr) (p : Place) (hattempt : attempt + n ≤ 40) :
    (ulLoop s_ppp_netif payload city_len state_len n attempt last_err p).Within wait
      (20000 * n + 500 * ∑ j ∈ Finset.range n, (attempt + j)) := by
  induction n generalizing attempt last_err p with
  | zero => exact within_done _ _
  | succ n ih =>
      have hround : 20000 * (n + 1) + 500 * ∑ j ∈ Finset.range (n + 1), (attempt + j)
          = 0 + (0 + (0 + (20000 + (500 * attempt
            + (20000 * n + 500 * ∑ j ∈ Finset.range n, (attempt + 1 + j)))))) := by
        have hshift : ∑ j ∈ Finset.range n, (attempt + (j + 1))
            = ∑ j ∈ Finset.range n, (attempt + 1 + j) :=
          Finset.sum_congr rfl fun j _ => by ring
        rw [Finset.sum_range_succ', hshift]
        ring
      rw [hround, ulLoop]
      refine (within_force_public_dns _).bind fun _ => (within_netifName _).bind fun _ =>
        within_ask_bind fun cli => ?_
      split
      · refine ((within_vTaskDelay _).bind fun _ => ih (attempt + 1) _ _ (by omega)).mono ?_
        omega
      · refine within_ask_bind fun a => ?_
        dsimp only
        split
        · exact within_done _ _
        · exact (within_vTaskDelay _).bind fun _ => ih (attempt + 1) _ _ (by omega)

theorem within_cityStep (token : Bytes) (s : ModemStatics) :
    (cityStep token s).Within wait 107500 := by
  have hasked : (modem_unwiredlabs_city_state token s 64 64).Within wait 107500 := by
    rw [modem_unwiredlabs_city_state]
    split
    · exact within_done _ _
    · split
      · exact within_done _ _
      · dsimp only
        split
        · exact within_done _ _
        · exact within_ulLoop _ _ _ _ 5 1 _ _ (by decide)
  rw [cityStep]
  split
  · refine Program.Within.bind (n := 0) hasked fun r => ?_
    split
    split
    · exact within_done _ _
    · exact within_done _ _
  · exact within_done _ _

theorem within_startSensors : startSensors.Within wait 8350 :=
  (within_vTaskDelay 200).bind fun _ => within_ask_bind fun _ => (within_vTaskDelay 100).bind
    fun _ => within_ask_bind fun _ => (within_vTaskDelay 50).bind fun _ => within_ask_bind
      fun _ => within_vTaskDelay 5000

theorem within_addDevices (s : Handles Unit) : (addDevices s).Within wait 8350 := by
  refine within_ask_bind (n := 8350) fun scd4x => ?_
  split
  · exact within_done _ _
  · refine within_ask_bind (n := 8350) fun sen5x => ?_
    split
    · exact within_done _ _
    · exact within_startSensors.bind fun _ => within_done _ 0

theorem within_sensors_init_all (s : Handles Unit) :
    (sensors_init_all s).Within wait 11350 := by
  refine Program.Within.bind (n := 9850) (within_vTaskDelay 1500) fun _ => ?_
  split
  · exact within_done _ _
  · refine Program.Within.bind (n := 8350) (within_vTaskDelay 1500) fun _ =>
      within_ask_bind (n := 8350) fun bus => ?_
    split
    · exact within_done _ _
    · exact within_addDevices _

theorem within_startTask (token : Bytes) (s : ModemStatics) :
    (startTask token s).Within wait 130350 := by
  refine Program.Within.bind (n := 120350) within_init_sntp_and_time fun _ =>
    Program.Within.bind (n := 12850) (within_cityStep token s) fun g_city_state =>
      Program.Within.bind (n := 11350) (within_vTaskDelay 1500) fun _ =>
        Program.Within.bind (n := 0) (within_sensors_init_all _) fun r => ?_
  split
  split
  · exact within_done _ _
  · exact within_ask _ 0

/-- **The main program is done in time.** Whatever the modem, the network and the sensors do, the
calls of `app_main` wait at most 413 seconds by their own timeouts until the task is started, or
the board restarts. -/
theorem app_main_waits (token : Bytes) : (app_main token).Within wait 412950 := by
  refine Program.Within.bind (n := 412950) within_initFlash fun _ =>
    within_ask_bind (n := 412950) fun _ => Program.Within.bind (n := 412950)
      (within_ESP_ERROR_CHECK _) fun _ => within_ask_bind (n := 412950) fun _ =>
        Program.Within.bind (n := 412950) (within_ESP_ERROR_CHECK _) fun _ =>
          Program.Within.bind (n := 412950) within_wifi_hard_off fun _ =>
            Program.Within.bind (n := 130350) (within_start _ (by decide) _) fun r => ?_
  split
  split
  · exact Program.Within.bind (n := 127350) (within_vTaskDelay 3000) fun _ =>
      within_call (n := 127350) fun r => r.elim
  · exact within_startTask token _

end Board

end PppAmb
