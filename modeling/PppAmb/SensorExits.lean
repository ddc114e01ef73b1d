import PppAmb.Sensors

/-!
# The Exits of `sensors_read`

A call of `sensors_read` makes its transactions one after the other and returns at the first
thing that goes wrong. This module lists the places where it can return an error, with the
number of polls made until then, and shows that there are no others.

## Main results

* `fails_bind`: a reader made of two parts fails in the first or in the second one.
* `fails_pollDataReady`: the polls fail at the first one that is not answered.
* `sensors_read_exits`: a call ends after at most 30 polls, either with a measurement made of
  the replies of this call, or with an error and with the data left as it was.
-/

namespace PppAmb

/-! ### Readers that fail -/

section Fails

variable {B : I2c} {a : Arith} {α β : Type}

/-- The reader returns the given error code, with the given count of transactions after it. -/
def BusM.Fails (x : BusM α) (k : ℕ) (ret : EspErr) (k' : ℕ) : Prop :=
  x k = (.error ret, k')

theorem not_fails_pure {b : α} {k k' : ℕ} {ret : EspErr} : ¬ BusM.Fails (pure b) k ret k' := by
  have hpure : (pure b : BusM α) k = (.ok b, k) := rfl
  simp [BusM.Fails, hpure]

theorem fails_fail {ret ret' : EspErr} {k k' : ℕ} :
    BusM.Fails (.fail ret : BusM α) k ret' k' ↔ ret' = ret ∧ k' = k := by
  simp [BusM.Fails, BusM.fail, eq_comm]

/-- A reader made of two parts fails in the first part, or in the second one after it. -/
theorem fails_bind {x : BusM α} {f : α → BusM β} {k k' : ℕ} {ret : EspErr} :
    BusM.Fails (x >>= f) k ret k' ↔
      x.Fails k ret k' ∨ ∃ b m, x.Gives k b m ∧ (f b).Fails m ret k' := by
  rcases hx : x k with ⟨ret | b, m⟩
  · simp [BusM.Fails, BusM.Gives, bind_of_error hx, hx]
  · simp [BusM.Fails, BusM.Gives, bind_of_ok hx, hx]

theorem not_fails_transaction {k k' : ℕ} {ret : EspErr} : ¬ BusM.transaction.Fails k ret k' := by
  simp [BusM.Fails, BusM.transaction]

theorem fails_returnUnlessOk {ret ret' : EspErr} {k k' : ℕ} :
    (returnUnlessOk ret).Fails k ret' k' ↔ ret' = ret ∧ ret ≠ ESP_OK ∧ k' = k := by
  rw [returnUnlessOk]
  split
  · rename_i h
    simp [fails_fail, h]
  · rename_i h
    exact iff_of_false not_fails_pure (fun hret => h hret.2.1)

theorem fails_transmit {device : Device} {cmd : Bytes} {k k' : ℕ} {ret : EspErr} :
    (i2c_master_transmit B device cmd).Fails k ret k' ↔
      ret = B.transmit k device cmd ∧ ret ≠ ESP_OK ∧ k' = k + 1 := by
  simp only [i2c_master_transmit, fails_bind, not_fails_transaction, gives_transaction,
    fails_returnUnlessOk, false_or]
  constructor
  · rintro ⟨m, n, ⟨rfl, rfl⟩, rfl, hret, rfl⟩
    exact ⟨rfl, hret, rfl⟩
  · rintro ⟨rfl, hret, rfl⟩
    exact ⟨k, k + 1, ⟨rfl, rfl⟩, rfl, hret, rfl⟩

theorem fails_receive {device : Device} {n k k' : ℕ} {ret : EspErr} :
    (i2c_master_receive B device n).Fails k ret k' ↔
      ret = (B.receive k device).1 ∧ ret ≠ ESP_OK ∧ k' = k + 1 := by
  simp only [i2c_master_receive, fails_bind, not_fails_transaction, gives_transaction,
    fails_returnUnlessOk, not_fails_pure, false_or, and_false, exists_false, or_false]
  constructor
  · rintro ⟨m, n, ⟨rfl, rfl⟩, rfl, hret, rfl⟩
    exact ⟨rfl, hret, rfl⟩
  · rintro ⟨rfl, hret, rfl⟩
    exact ⟨k, k + 1, ⟨rfl, rfl⟩, rfl, hret, rfl⟩

/-! ### What can go wrong -/

/-- A command is not taken, or not answered. -/
inductive I2c.BreaksOff (B : I2c) (k : ℕ) (device : Device) (cmd : Bytes) : EspErr → ℕ → Prop
  | transmit (h : B.transmit k device cmd ≠ ESP_OK) :
      BreaksOff B k device cmd (B.transmit k device cmd) (k + 1)
  | receive (hsent : B.transmit k device cmd = ESP_OK) (h : (B.receive (k + 1) device).1 ≠ ESP_OK) :
      BreaksOff B k device cmd (B.receive (k + 1) device).1 (k + 2)

/-- The first `j` polls are answered under right CRCs, none of them with the flag 1. -/
def I2c.Waits (B : I2c) (k j : ℕ) : Prop :=
  ∀ i < j, ∃ data_ready, data_ready ≠ 1 ∧ B.Polled (k + 2 * i) data_ready

/-- A poll is not answered, or answered with a wrong CRC. -/
inductive I2c.PollFails (B : I2c) (k : ℕ) : EspErr → ℕ → Prop
  | bus {ret : EspErr} {k' : ℕ} (h : B.BreaksOff k .sen5x [0x02, 0x02] ret k') : PollFails B k ret k'
  | crc (hresponds : B.Responds k .sen5x [0x02, 0x02])
      (h : (B.reply (k + 1) .sen5x 1).crcRight 0 = false) : PollFails B k ESP_ERR_INVALID_CRC (k + 2)

/-- **The exits with an error** of a call that starts with transaction `k`: the number of polls
made, the error code, and the number of the next transaction. -/
inductive I2c.Stops (B : I2c) (k : ℕ) : ℕ → EspErr → ℕ → Prop
  /-- The SCD4x does not answer. -/
  | scd {ret : EspErr} {k' : ℕ} (h : B.BreaksOff k .scd4x [0xEC, 0x05] ret k') : Stops B k 0 ret k'
  /-- Poll number `j` fails. -/
  | poll {j : ℕ} {ret : EspErr} {k' : ℕ} (hj : j < 30) (hwaits : B.Waits (k + 2) j)
      (h : B.PollFails (k + 2 + 2 * j) ret k') : Stops B k (j + 1) ret k'
  /-- The data is not ready at any poll. -/
  | timeout (h : B.Waits (k + 2) 30) : Stops B k 30 ESP_ERR_TIMEOUT (k + 62)
  /-- The data is ready, but is not sent. -/
  | values {j : ℕ} {ret : EspErr} {k' : ℕ} (hj : j < 30) (hready : B.ReadyAt (k + 2) j)
      (h : B.BreaksOff (k + 2 * j + 4) .sen5x [0x03, 0xC4] ret k') : Stops B k (j + 1) ret k'
  /-- The data is sent with a wrong CRC. -/
  | crc {j : ℕ} (hj : j < 30) (hready : B.ReadyAt (k + 2) j)
      (hresponds : B.Responds (k + 2 * j + 4) .sen5x [0x03, 0xC4])
      (h : ¬ (B.reply (k + 2 * j + 5) .sen5x 8).Checked) :
      Stops B k (j + 1) ESP_ERR_INVALID_CRC (k + 2 * j + 6)

/-- No exit comes after more than 30 polls. -/
theorem I2c.Stops.polls_le {k polls k' : ℕ} {ret : EspErr} (h : B.Stops k polls ret k') :
    polls ≤ 30 := by
  cases h with
  | scd _ => omega
  | poll hj _ _ => omega
  | timeout _ => omega
  | values hj _ _ => omega
  | crc hj _ _ _ => omega

/-! ### One lemma for each reader -/

/-- A command and its reply, of which some use is made that cannot fail. -/
theorem breaksOff_of_fails {device : Device} {cmd : Bytes} {k k' n : ℕ} {ret : EspErr}
    (h : (i2c_master_transmit B device cmd).Fails k ret k' ∨
      ∃ u m, (i2c_master_transmit B device cmd).Gives k u m ∧
        (i2c_master_receive B device n).Fails m ret k') : B.BreaksOff k device cmd ret k' := by
  rcases h with h | ⟨u, m, hsent, h⟩
  · obtain ⟨rfl, hret, rfl⟩ := fails_transmit.mp h
    exact .transmit hret
  · obtain ⟨hok, rfl⟩ := gives_transmit.mp hsent
    obtain ⟨rfl, hret, rfl⟩ := fails_receive.mp h
    exact .receive hok hret

theorem fails_scd4x_read_measurement {k k' : ℕ} {ret : EspErr}
    (h : (scd4x_read_measurement B a).Fails k ret k') : B.BreaksOff k .scd4x [0xEC, 0x05] ret k' := by
  simp only [scd4x_read_measurement, fails_bind, not_fails_pure, and_false, exists_false,
    or_false] at h
  exact breaksOff_of_fails h

theorem fails_sen5x_read_data_ready {k k' : ℕ} {ret : EspErr}
    (h : (sen5x_read_data_ready B).Fails k ret k') : B.PollFails k ret k' := by
  rw [sen5x_read_data_ready, fails_bind] at h
  rcases h with h | ⟨u, m, hsent, h⟩
  · exact .bus (breaksOff_of_fails (n := 1) (.inl h))
  · rcases fails_bind.mp h with h | ⟨resp, m', hgot, h⟩
    · exact .bus (breaksOff_of_fails (.inr ⟨u, m, hsent, h⟩))
    · obtain ⟨hok, rfl⟩ := gives_transmit.mp hsent
      obtain ⟨hok', rfl, rfl⟩ := gives_receive.mp hgot
      split at h
      · exact absurd h not_fails_pure
      · rename_i hcrc
        obtain ⟨rfl, rfl⟩ := fails_fail.mp h
        exact .crc ⟨hok, hok'⟩ (by simpa using hcrc)

theorem fails_sen5x_read_measured_values {k k' : ℕ} {ret : EspErr}
    (h : (sen5x_read_measured_values B).Fails k ret k') :
    B.BreaksOff k .sen5x [0x03, 0xC4] ret k' := by
  rw [sen5x_read_measured_values, fails_bind] at h
  exact breaksOff_of_fails h

/-- One more poll that is answered, in front of those that are. -/
theorem I2c.Waits.cons {k j : ℕ} {data_ready : UInt8} (hflag : data_ready ≠ 1)
    (hpoll : B.Polled k data_ready) (h : B.Waits (k + 2) j) : B.Waits k (j + 1) := by
  intro i hi
  rcases i with _ | i
  · exact ⟨data_ready, hflag, hpoll⟩
  · rw [show k + 2 * (i + 1) = k + 2 + 2 * i by omega]
    exact h i (by omega)

/-- **The polls** fail at the first one that fails. -/
theorem fails_pollDataReady {timeout k k' : ℕ} {data_ready : UInt8} {ret : EspErr}
    (h : (pollDataReady B timeout data_ready).Fails k ret k') :
    ∃ j < timeout, B.Waits k j ∧ B.PollFails (k + 2 * j) ret k' := by
  induction timeout generalizing k data_ready with
  | zero => exact absurd h not_fails_pure
  | succ timeout ih =>
      rw [pollDataReady, fails_bind] at h
      rcases h with h | ⟨flag, m, hflagged, h⟩
      · exact ⟨0, by omega, fun i hi => absurd hi (by omega), fails_sen5x_read_data_ready h⟩
      · obtain ⟨hpoll, rfl⟩ := gives_sen5x_read_data_ready.mp hflagged
        by_cases hflag : flag = 1
        · rw [if_pos hflag] at h
          exact absurd h not_fails_pure
        · rw [if_neg hflag] at h
          obtain ⟨j, hj, hwaits, hfails⟩ := ih h
          refine ⟨j + 1, by omega, hwaits.cons hflag hpoll, ?_⟩
          rwa [show k + 2 * (j + 1) = k + 2 + 2 * j by omega]

/-- Polls that end with another flag than 1 have all been made. -/
theorem waits_of_gives {timeout k k' : ℕ} {data_ready flag : UInt8} (hflag : flag ≠ 1)
    (h : (pollDataReady B timeout data_ready).Gives k flag k') :
    B.Waits k timeout ∧ k' = k + 2 * timeout := by
  induction timeout generalizing k data_ready with
  | zero =>
      obtain ⟨-, rfl⟩ := gives_pure.mp h
      exact ⟨fun i hi => absurd hi (by omega), rfl⟩
  | succ timeout ih =>
      simp only [pollDataReady, gives_bind, gives_sen5x_read_data_ready] at h
      obtain ⟨flag', m, ⟨hpoll, rfl⟩, hrest⟩ := h
      by_cases hflag' : flag' = 1
      · rw [if_pos hflag'] at hrest
        obtain ⟨rfl, -⟩ := gives_pure.mp hrest
        exact absurd hflag' hflag
      · rw [if_neg hflag'] at hrest
        obtain ⟨hwaits, rfl⟩ := ih hrest
        exact ⟨hwaits.cons hflag' hpoll, by omega⟩

/-- **Where a call stops.** -/
theorem fails_readBoth {k k' : ℕ} {ret : EspErr} (h : (readBoth B a).Fails k ret k') :
    ∃ polls, B.Stops k polls ret k' := by
  rw [readBoth, fails_bind] at h
  rcases h with h | ⟨scd, m, hscd, h⟩
  · exact ⟨0, .scd (fails_scd4x_read_measurement h)⟩
  obtain ⟨-, -, rfl⟩ := gives_scd4x_read_measurement.mp hscd
  rcases fails_bind.mp h with h | ⟨flag, m, hpolls, h⟩
  · obtain ⟨j, hj, hwaits, hfails⟩ := fails_pollDataReady h
    exact ⟨j + 1, .poll hj hwaits hfails⟩
  by_cases hflag : flag = 1
  · subst hflag
    obtain ⟨j, hj, hready, rfl⟩ := (gives_pollDataReady (by decide)).mp hpolls
    have h4 : k + 2 + 2 * j + 2 = k + 2 * j + 4 := by omega
    rw [if_neg (by simp), fails_bind, h4] at h
    rcases h with h | ⟨buf, m, hvalues, h⟩
    · exact ⟨j + 1, .values hj hready (fails_sen5x_read_measured_values h)⟩
    · obtain ⟨hresponds, rfl, rfl⟩ := gives_sen5x_read_measured_values.mp hvalues
      split at h
      · rename_i hnone
        obtain ⟨rfl, rfl⟩ := fails_fail.mp h
        refine ⟨j + 1, .crc hj hready hresponds fun hchecked => ?_⟩
        rw [sen5x_decode_measurement_eq_some.mpr ⟨hchecked, rfl⟩] at hnone
        exact absurd hnone (by simp)
      · exact absurd h not_fails_pure
  · rw [if_pos hflag] at h
    obtain ⟨hwaits, rfl⟩ := waits_of_gives hflag hpolls
    obtain ⟨rfl, rfl⟩ := fails_fail.mp h
    exact ⟨30, .timeout hwaits⟩

end Fails

/-- **The exits of `sensors_read`.** For every bus, every pointer and every place in the run:
either the call returns `ESP_OK`, after a poll number `j < 30` that reports data ready under a
right CRC, with the data computed from its reply of the SCD4x and its reply of the SEN5x; or it
returns an error after at most 30 polls and leaves the data as it was. -/
theorem sensors_read_exits (B : I2c) (a : Arith) (out : Option SensorData) (k : ℕ) :
    (∃ j < 30, out.isSome ∧ B.InOrder k j ∧
      sensors_read B a out k = (ESP_OK, some (B.measured a k j), k + 2 * j + 6)) ∨
    ∃ ret k', ret ≠ ESP_OK ∧ sensors_read B a out k = (ret, out, k') ∧
      ((out = none ∧ k' = k) ∨ ∃ polls ≤ 30, B.Stops k polls ret k') := by
  cases out with
  | none => exact .inr ⟨ESP_ERR_INVALID_ARG, k, by decide, rfl, .inl ⟨rfl, rfl⟩⟩
  | some old =>
      rcases hread : readBoth B a k with ⟨ret | data, k'⟩
      · obtain ⟨polls, hstops⟩ := fails_readBoth hread
        refine .inr ⟨ret, k', failsWithError_readBoth k ret k' hread, ?_,
          .inr ⟨polls, hstops.polls_le, hstops⟩⟩
        simp only [sensors_read, hread]
      · obtain ⟨j, hj, horder, rfl, rfl⟩ := gives_readBoth.mp hread
        refine .inl ⟨j, hj, rfl, horder, ?_⟩
        simp only [sensors_read, hread]

end PppAmb
