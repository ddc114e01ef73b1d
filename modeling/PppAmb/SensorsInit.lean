import PppAmb.Run
import PppAmb.Sensors

/-!
# Setting up the Sensors

`sensors_init_all` of `main/sensors.c` creates the bus and a handle for each device, one after
the other, in statics that `sensors_read` uses. The handle of the bus also tells a later call
that everything has been set up.

The driver is outside: a call comes with what each of the three functions that create a handle
would return. A handle is written only together with `ESP_OK`. What the start-up commands of
the sensors return is dropped by the program, and left out.

The field `reported` is bookkeeping that the program does not have: some call has returned
`ESP_OK`.

## Main results

* `sensors_init_all_cases`: what a call can do.
* `initComplete_iff`: `ESP_OK` means that all three handles are there, in every run in which no
  call follows one that has created the bus but not the devices, and in no other.
* `second_init_without_devices`: a device cannot be added, and the next call returns `ESP_OK`.
-/

namespace PppAmb

/-- What a function returns that creates a handle. -/
structure Created (H : Type) where
  ret : EspErr
  handle : H

/-- The static behind such a call. -/
def Created.store {H : Type} (c : Created H) (old : Option H) : Option H :=
  if c.ret = ESP_OK then some c.handle else old

/-- What the driver does during a call of `sensors_init_all`: `i2c_new_master_bus`, and
`i2c_master_bus_add_device` for each device. -/
structure DriverOutcome (H : Type) where
  bus : Created H
  scd4x : Created H
  sen5x : Created H

/-- The statics; `none` is `NULL`. -/
structure Handles (H : Type) where
  s_i2c_bus : Option H
  s_scd4x_dev : Option H
  s_sen5x_dev : Option H

/-- The statics when the program starts. -/
def Handles.start {H : Type} : Handles H :=
  ⟨none, none, none⟩

/-- The handle of a device. -/
def Handles.device {H : Type} (s : Handles H) : Device → Option H
  | .scd4x => s.s_scd4x_dev
  | .sen5x => s.s_sen5x_dev

/-- All three handles have been created. -/
structure Handles.Complete {H : Type} (s : Handles H) : Prop where
  bus : s.s_i2c_bus.isSome
  devices : ∀ device, (s.device device).isSome

section Calls

variable {H : Type}

/-- `sensors_init_all`. -/
def sensors_init_all (driver : DriverOutcome H) (s : Handles H) : EspErr × Handles H :=
  if s.s_i2c_bus.isSome then (ESP_OK, s)
  else
    let s := { s with s_i2c_bus := driver.bus.store s.s_i2c_bus }
    if driver.bus.ret ≠ ESP_OK then (driver.bus.ret, s)
    else
      let s := { s with s_scd4x_dev := driver.scd4x.store s.s_scd4x_dev }
      if driver.scd4x.ret ≠ ESP_OK then (driver.scd4x.ret, s)
      else
        let s := { s with s_sen5x_dev := driver.sen5x.store s.s_sen5x_dev }
        if driver.sen5x.ret ≠ ESP_OK then (driver.sen5x.ret, s) else (ESP_OK, s)

/-- **What a call can do**: it returns `ESP_OK` at once if there is a bus; else it returns an
error, or it returns `ESP_OK` with all three handles. -/
theorem sensors_init_all_cases (driver : DriverOutcome H) (s : Handles H) :
    (s.s_i2c_bus.isSome ∧ sensors_init_all driver s = (ESP_OK, s)) ∨
      (s.s_i2c_bus = none ∧ (sensors_init_all driver s).1 ≠ ESP_OK) ∨
      (s.s_i2c_bus = none ∧ (sensors_init_all driver s).1 = ESP_OK ∧
        (sensors_init_all driver s).2.Complete) := by
  rw [sensors_init_all]
  by_cases hbus : s.s_i2c_bus.isSome
  · rw [if_pos hbus]
    exact .inl ⟨hbus, rfl⟩
  have hnone : s.s_i2c_bus = none := by simpa using hbus
  simp only [hnone, Option.isSome_none, Bool.false_eq_true, if_false, true_and, false_and, false_or]
  by_cases hcreated : driver.bus.ret = ESP_OK
  · by_cases hscd : driver.scd4x.ret = ESP_OK
    · by_cases hsen : driver.sen5x.ret = ESP_OK
      · simp only [hcreated, hscd, hsen, ne_eq, not_true_eq_false, if_false, false_or, true_and]
        refine ⟨by simp [Created.store, hcreated], fun device => ?_⟩
        cases device with
        | scd4x => simp [Handles.device, Created.store, hscd]
        | sen5x => simp [Handles.device, Created.store, hsen]
      · simp [hcreated, hscd, hsen]
    · simp [hcreated, hscd]
  · simp [hcreated]

/-! ### Runs -/

/-- The statics during a run. -/
structure SensorState (H : Type) where
  handles : Handles H
  reported : Bool

/-- The calls from outside. What `sensors_read` does to its data is no part of this state. -/
inductive SensorCall (H : Type) where
  | sensors_init_all (driver : DriverOutcome H)
  | sensors_read

/-- The state after a call. -/
def SensorCall.exec (s : SensorState H) : SensorCall H → SensorState H
  | .sensors_init_all driver =>
      let (ret, handles) := PppAmb.sensors_init_all driver s.handles
      ⟨handles, s.reported || ret = ESP_OK⟩
  | .sensors_read => s

/-- **The contract.** A call of `sensors_init_all` returns `ESP_OK` only if all three handles
have been created; and once a call has returned `ESP_OK`, `sensors_read` has a handle for
each device it turns to. -/
def SensorCall.Sound (s : SensorState H) : SensorCall H → Prop
  | .sensors_init_all driver =>
      (PppAmb.sensors_init_all driver s.handles).1 = ESP_OK →
        (PppAmb.sensors_init_all driver s.handles).2.Complete
  | .sensors_read => s.reported = true → ∀ device, (s.handles.device device).isSome

/-- The condition: `sensors_init_all` is not called with a bus but without one of the devices,
as an earlier call leaves them in which a device could not be added. -/
def SensorCall.NotHalfway (s : SensorState H) : SensorCall H → Prop
  | .sensors_init_all _ => s.handles.s_i2c_bus.isSome → s.handles.Complete
  | .sensors_read => True

/-- The invariant: all handles are there once a call has returned `ESP_OK`. -/
def SensorState.Kept (s : SensorState H) : Prop :=
  s.reported = true → s.handles.Complete

/-- One call under the condition keeps the invariant and the contract. -/
theorem SensorCall.sound_step {s : SensorState H} {call : SensorCall H} (hI : s.Kept)
    (hC : call.NotHalfway s) : call.Sound s ∧ (call.exec s).Kept := by
  cases call with
  | sensors_read => exact ⟨fun hreported => (hI hreported).devices, hI⟩
  | sensors_init_all driver =>
      rcases sensors_init_all_cases driver s.handles with ⟨hbus, hret⟩ | ⟨hnone, hret⟩ | ⟨-, -, hall⟩
      · refine ⟨fun _ => ?_, fun _ => ?_⟩
        · rw [hret]
          exact hC hbus
        · simp only [SensorCall.exec, hret]
          exact hC hbus
      · refine ⟨fun hok => absurd hok hret, fun hreported => ?_⟩
        simp only [SensorCall.exec, hret, decide_false, Bool.or_false] at hreported
        have hbus := (hI hreported).bus
        simp [hnone] at hbus
      · exact ⟨fun _ => hall, fun _ => hall⟩

/-- A call that keeps the contract meets the condition. -/
theorem SensorCall.notHalfway_of_sound {s : SensorState H} {call : SensorCall H}
    (h : call.Sound s) : call.NotHalfway s := by
  cases call with
  | sensors_read => trivial
  | sensors_init_all driver =>
      intro hbus
      have hret : PppAmb.sensors_init_all driver s.handles = (ESP_OK, s.handles) := by
        rw [PppAmb.sensors_init_all, if_pos hbus]
      rw [SensorCall.Sound, hret] at h
      exact h rfl

/-- **The contract of `sensors_init_all`.** For every run of calls from the start of the
program and every outcome of the driver: `ESP_OK` is returned only for a bus and two devices
that have been created, and `sensors_read` finds no handle missing afterwards, if and only if
`sensors_init_all` is never called with a bus but without one of the devices. -/
theorem initComplete_iff (calls : List (SensorCall H)) :
    Along SensorCall.exec SensorCall.Sound ⟨.start, false⟩ calls ↔
      Along SensorCall.exec SensorCall.NotHalfway ⟨.start, false⟩ calls := by
  constructor
  · exact Along.of_invariant (I := fun _ => True)
      (fun s call _ hsound => ⟨call.notHalfway_of_sound hsound, trivial⟩) trivial
  · exact Along.of_invariant (I := SensorState.Kept)
      (fun s call hI hC => SensorCall.sound_step hI hC) (by simp [SensorState.Kept])

end Calls

/-- The bus is created, and the SCD4x cannot be added to it. -/
def noScd4x : DriverOutcome Unit :=
  ⟨⟨ESP_OK, ()⟩, ⟨ESP_FAIL, ()⟩, ⟨ESP_OK, ()⟩⟩

/-- **The second call of `sensors_init_all`** returns `ESP_OK` because there is a bus, and
`sensors_read` then has no handle for either device. -/
theorem second_init_without_devices :
    sensors_init_all noScd4x .start = (ESP_FAIL, ⟨some (), none, none⟩) ∧
      sensors_init_all noScd4x ⟨some (), none, none⟩ = (ESP_OK, ⟨some (), none, none⟩) ∧
      ¬ ∀ calls : List (SensorCall Unit),
        Along SensorCall.exec SensorCall.Sound ⟨.start, false⟩ calls := by
  refine ⟨rfl, rfl, fun h => ?_⟩
  have hsecond := (h [.sensors_init_all noScd4x, .sensors_init_all noScd4x]).2.1
  have hcomplete := SensorCall.notHalfway_of_sound hsecond
  exact absurd ((hcomplete rfl).devices .scd4x) (by decide)

end PppAmb
