import PppAmb.BootProtocol
import PppAmb.Run

/-!
# The Main Program Among IP Events

`on_ip_event` of `main/modem_ppp.c` runs in another task, whenever an address is assigned or
lost: it sets the bit that `modem_ppp_start_blocking` waits for, or it restarts the board. This
module puts the main program among these events, in any order and at any time.

## Main results

* `task_created`: when the main program creates the task, an address has been assigned and none
  has been lost, and the task finds the handles and the city.
* `goodRecord_reached`: a start that succeeds.
-/

namespace PppAmb

namespace Board

/-! ### The IP events -/

/-- The events that `on_ip_event` is called with. -/
inductive IpEvent where
  | PPP_GOT_IP
  | PPP_LOST_IP
  | other (id : ℕ)
  deriving DecidableEq

/-- `esp_restart` in `on_ip_event`. -/
def Restarted (record : List (Entry Call Reply IpEvent)) : Prop :=
  .event .PPP_LOST_IP ∈ record

/-- `on_ip_event` is called when it is registered. With an address it sets the bit that
`xEventGroupWaitBits` waits for and nothing clears; when the address is lost, the board
restarts. -/
def ipEvents : Surroundings Call Reply IpEvent where
  replies record
    | ⟨.xEventGroupWaitBits _, b⟩ => ¬ Restarted record ∧ (b = true ↔ .event .PPP_GOT_IP ∈ record)
    | _ => ¬ Restarted record
  occurs record _ := ¬ Restarted record ∧ (boardState record).handler = true

/-- A call that is answered moves the state of the board. -/
@[simp] theorem boardState_call {E : Type} (record : List (Entry Call Reply E))
    (a : Answered Call Reply) :
    boardState (record ++ [.call a]) = follow (boardState record) a := by
  simp [boardState]

/-- An event leaves the state of the board as it is. -/
@[simp] theorem boardState_event {E : Type} (record : List (Entry Call Reply E)) (e : E) :
    boardState (record ++ [.event e]) = boardState record := by
  simp [boardState]

/-- Only the wait tells that there is an address. -/
theorem follow_up (s : BoardState) (a : Answered Call Reply) :
    (∃ ms b, a = ⟨.xEventGroupWaitBits ms, b⟩ ∧ (follow s a).up = b) ∨ (follow s a).up = s.up := by
  obtain ⟨c, r⟩ := a
  cases c with
  | xEventGroupWaitBits ms => exact .inl ⟨ms, r, rfl, rfl⟩
  | esp_modem_set_mode mode =>
      right
      simp only [follow]
      split
      · rfl
      · split <;> rfl
  | esp_modem_at cmd timeout_ms =>
      right
      simp only [follow]
      split <;> rfl
  | esp_http_client_init =>
      right
      simp only [follow]
      split <;> rfl
  | i2c_master_bus_add_device device => cases device <;> exact .inr rfl
  | _ => exact .inr rfl

/-- No call takes back that the task is created. -/
theorem follow_started (s : BoardState) (a : Answered Call Reply) (h : s.started = true) :
    (follow s a).started = true := by
  obtain ⟨c, r⟩ := a
  cases c with
  | esp_modem_set_mode mode =>
      simp only [follow]
      split
      · exact h
      · split <;> exact h
  | esp_modem_at cmd timeout_ms =>
      simp only [follow]
      split <;> exact h
  | esp_http_client_init =>
      simp only [follow]
      split <;> exact h
  | i2c_master_bus_add_device device => cases device <;> exact h
  | xTaskCreate g_city_state handles => rfl
  | _ => exact h

/-- A task that is created stays so over a record. -/
theorem started_foldl (log : List (Answered Call Reply)) {s : BoardState} (h : s.started = true) :
    (log.foldl follow s).started = true :=
  foldl_invariant (I := fun s : BoardState => s.started = true)
    (fun s a hs => follow_started s a hs) log h

section IpEvents

variable {token : Bytes} {record : List (Entry Call Reply IpEvent)} {p : Board Unit}

/-- What is taken for a connection is one. -/
theorem got_ip_of_up (h : ipEvents.Reaches (app_main token) record p)
    (hup : (boardState record).up = true) : .event .PPP_GOT_IP ∈ record := by
  induction h with
  | start => exact absurd hup (by decide)
  | @call record c next r _ hreply ih =>
      rw [boardState_call] at hup
      rcases follow_up (boardState record) ⟨c, r⟩ with ⟨ms, b, heq, hb⟩ | hsame
      · rw [heq] at hreply
        rw [hup] at hb
        exact List.mem_append_left _ (hreply.2.mp hb.symm)
      · rw [hsame] at hup
        exact List.mem_append_left _ (ih hup)
  | event _ _ ih =>
      rw [boardState_event] at hup
      exact List.mem_append_left _ (ih hup)

/-- Nothing is replied after a restart. -/
theorem not_restarted_of_replies {a : Answered Call Reply} (h : ipEvents.replies record a) :
    ¬ Restarted record := by
  obtain ⟨c, r⟩ := a
  cases c with
  | xEventGroupWaitBits ms => exact h.1
  | _ => exact h

/-- **The task is started with a connection.** Whatever the functions outside reply, and whenever
the IP events occur: when the main program creates the task, an address has been assigned and
none has been lost; the task finds all handles, and the city that the answers of the modem and
of the server give; and the main program calls nothing more. -/
theorem task_created (h : ipEvents.Reaches (app_main token) record p)
    {before after : List (Entry Call Reply IpEvent)} {g_city_state : Bytes}
    {handles : Handles Unit} {r : Unit}
    (hrecord : record = before ++ .call ⟨.xTaskCreate g_city_state handles, r⟩ :: after) :
    .event .PPP_GOT_IP ∈ before ∧ .event .PPP_LOST_IP ∉ before ∧ handles.Complete ∧
      g_city_state = PppAmb.cityStep token (boardState before).ue
        (fun _ => nthAttempt (boardState before).attempts) ∧
      ∀ a, .call a ∉ after := by
  obtain ⟨next, hbefore⟩ := h.before hrecord
  obtain ⟨-, hup, -, hcomplete, hcity⟩ := ((safe_app_main token).runs hbefore.runs).1
  refine ⟨got_ip_of_up hbefore hup, ?_, hcomplete, hcity, ?_⟩
  · exact not_restarted_of_replies (h.allowed before _ after hrecord)
  · intro a ha
    obtain ⟨mid, rest, rfl⟩ := List.append_of_mem ha
    set created : Entry Call Reply IpEvent := .call ⟨.xTaskCreate g_city_state handles, r⟩
    have hsplit : record = (before ++ created :: mid) ++ .call a :: rest := by
      rw [hrecord, List.append_assoc, List.cons_append]
    obtain ⟨next', hlater⟩ := h.before hsplit
    have hstarted : (boardState (before ++ created :: mid)).started = true := by
      rw [← List.singleton_append, ← List.append_assoc, boardState, calls_append, List.foldl_append]
      exact started_foldl _ (by rw [← boardState, boardState_call]; rfl)
    have hnot : (boardState (before ++ created :: mid)).started = false :=
      ((safe_app_main token).runs hlater.runs).1.1
    rw [hstarted] at hnot
    exact absurd hnot (by decide)

end IpEvents

/-! ### A start that succeeds -/

/-- Everything works, and the build has no token for the city. -/
def goodReply : (c : Call) → Option (Reply c)
  | .nvs_flash_init | .esp_netif_init | .esp_event_loop_create_default
  | .esp_event_handler_register | .esp_modem_set_apn _ | .esp_modem_set_mode _
  | .esp_modem_command _ _ | .i2c_master_transmit _ _ => some ESP_OK
  | .esp_netif_new | .xEventGroupCreate | .esp_modem_new_dev _ _ _ _ _
  | .xEventGroupWaitBits _ => some true
  | .esp_netif_get_handle_from_ifkey _ => some false
  | .esp_modem_get_mode => some .COMMAND
  | .esp_modem_at cmd _ => some ⟨ESP_OK, .of (if cmd = cpsiCommand
      then ascii "+CPSI: LTE,Online,334-20,0x232,43790378,55,EUTRAN-BAND5"
      else ascii "+CEREG: 0,1")⟩
  | .esp_netif_get_dns_info _ => some ⟨true, ip4 8 8 8 8⟩
  | .time => some 1700000000
  | .i2c_new_master_bus | .i2c_master_bus_add_device _ => some ⟨ESP_OK, ()⟩
  | .esp_wifi_stop | .esp_wifi_deinit | .esp_netif_set_default_netif | .gpio_set_direction _
  | .gpio_set_level _ _ | .vTaskDelay _ | .esp_sntp_init _ | .xTaskCreate _ _ => some ()
  | _ => none

/-- The calls of a start in which everything goes well. -/
def goodRun : List (Answered Call Reply) :=
  ((app_main []).runWith goodReply).1

/-- The wait has not come yet. -/
def notWait : Answered Call Reply → Bool
  | ⟨.xEventGroupWaitBits _, _⟩ => false
  | _ => true

/-- The wait ends with an address. -/
def waitGood : Answered Call Reply → Bool
  | ⟨.xEventGroupWaitBits _, b⟩ => b
  | _ => true

/-- The call that creates the task. -/
def createsTask : Answered Call Reply → Bool
  | ⟨.xTaskCreate _ _, _⟩ => true
  | _ => false

/-- Before a restart any call but the wait for the address may reply anything. -/
theorem replies_of_notWait {record : List (Entry Call Reply IpEvent)} (h : ¬ Restarted record)
    {a : Answered Call Reply} (ha : notWait a = true) : ipEvents.replies record a := by
  obtain ⟨c, r⟩ := a
  cases c with
  | xEventGroupWaitBits ms => exact absurd ha (by simp [notWait])
  | _ => exact h

/-- The wait may reply that there is an address once one was given. -/
theorem replies_of_waitGood {record : List (Entry Call Reply IpEvent)} (h : ¬ Restarted record)
    (hip : .event .PPP_GOT_IP ∈ record) {a : Answered Call Reply} (ha : waitGood a = true) :
    ipEvents.replies record a := by
  obtain ⟨c, r⟩ := a
  cases c with
  | xEventGroupWaitBits ms => exact ⟨h, iff_of_true ha hip⟩
  | _ => exact h

/-- The good run, with an address assigned before the wait. -/
def goodRecord : List (Entry Call Reply IpEvent) :=
  ((goodRun.takeWhile notWait).map .call ++ [.event .PPP_GOT_IP])
    ++ (goodRun.dropWhile notWait).map .call

/-- The good start does occur. -/
theorem goodRecord_reached : ∃ p, ipEvents.Reaches (app_main []) goodRecord p := by
  have hsplit : goodRun.takeWhile notWait ++ goodRun.dropWhile notWait = goodRun :=
    List.takeWhile_append_dropWhile
  have hrun := runs_runWith goodReply (app_main [])
  rw [← goodRun, ← hsplit] at hrun
  obtain ⟨p, hfirst, hlast⟩ := runs_append.mp hrun
  have hquiet : ∀ log : List (Answered Call Reply), ¬ Restarted (log.map .call) := by
    intro log hlost
    obtain ⟨a, -, ha⟩ := List.mem_map.mp hlost
    exact absurd ha (by simp)
  have hbefore : ipEvents.Reaches (app_main []) ((goodRun.takeWhile notWait).map .call) p :=
    Surroundings.Reaches.start.extend hfirst fun before a after heq =>
      replies_of_notWait (hquiet before) (List.mem_takeWhile_imp (by rw [heq]; simp))
  have hhandler : ((goodRun.takeWhile notWait).foldl follow .start).handler = true := by
    decide +kernel
  have hcalls : ∀ log : List (Answered Call Reply),
      calls (log.map (Entry.call : _ → Entry Call Reply IpEvent)) = log := fun log => by
    induction log with
    | nil => rfl
    | cons a log ih => exact congrArg (a :: ·) ih
  have hevent := hbefore.event (e := .PPP_GOT_IP)
    ⟨hquiet _, by rw [boardState, hcalls]; exact hhandler⟩
  have hgood : (goodRun.dropWhile notWait).all waitGood = true := by decide +kernel
  refine ⟨_, hevent.extend hlast fun before a after heq => replies_of_waitGood ?_ ?_ ?_⟩
  · rintro hlost
    rcases List.mem_append.mp hlost with hlost | hlost
    · rcases List.mem_append.mp hlost with hlost | hlost
      · exact hquiet _ hlost
      · exact absurd hlost (by simp)
    · exact hquiet _ hlost
  · simp
  · exact List.all_eq_true.mp hgood a (by rw [heq]; simp)

/-- The task is created in it. -/
theorem goodRecord_creates : ∃ before g_city_state handles after,
    goodRecord = before ++ .call ⟨.xTaskCreate g_city_state handles, ()⟩ :: after := by
  have hany : goodRun.any createsTask = true := by decide +kernel
  obtain ⟨⟨c, r⟩, hmem, hcreates⟩ := List.any_eq_true.mp hany
  cases c with
  | xTaskCreate g_city_state handles =>
      have hrecord : (.call ⟨.xTaskCreate g_city_state handles, ()⟩ : Entry Call Reply IpEvent)
          ∈ goodRecord := by
        rw [← List.takeWhile_append_dropWhile (p := notWait) (l := goodRun)] at hmem
        rcases List.mem_append.mp hmem with hmem | hmem
        · exact List.mem_append_left _ (List.mem_append_left _ (List.mem_map_of_mem hmem))
        · exact List.mem_append_right _ (List.mem_map_of_mem hmem)
      obtain ⟨before, after, heq⟩ := List.append_of_mem hrecord
      exact ⟨before, g_city_state, handles, after, heq⟩
  | _ => exact absurd hcreates (by simp [createsTask])

/-- In the good start there is an address before the task, and all handles are there. -/
theorem task_created_good : ∃ before g_city_state handles after,
    goodRecord = before ++ .call ⟨.xTaskCreate g_city_state handles, ()⟩ :: after ∧
      .event .PPP_GOT_IP ∈ before ∧ .event .PPP_LOST_IP ∉ before ∧ handles.Complete := by
  obtain ⟨p, hreached⟩ := goodRecord_reached
  obtain ⟨before, g_city_state, handles, after, heq⟩ := goodRecord_creates
  obtain ⟨hip, hlost, hcomplete, -⟩ := task_created hreached heq
  exact ⟨before, g_city_state, handles, after, heq, hip, hlost, hcomplete⟩

end Board

end PppAmb
