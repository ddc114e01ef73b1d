import Mathlib.Logic.Function.Iterate
import PppAmb.HttpClient
import PppAmb.SensorTask

/-!
# Reading the Sensors

`sensors_read` of `main/sensors.c` with the readers of both sensors. Each 16-bit word of a
reply is followed by a CRC-8 of its two bytes.

The driver of the I²C bus is outside: `I2c` gives the outcome of every transaction, with any
bytes in the replies. The transactions are counted, and the count is the state of a reader.

## Main results

* `sensors_read_ok_iff`: when `sensors_read` returns `ESP_OK`, and what it returns then.
* `sensors_read_checked_iff`: it returns `ESP_OK` for checked words only exactly when the
  reply of the SCD4x carries the right CRCs or the call fails for another reason.
* `corrupted_scd4x_accepted`: a reply of the SCD4x with a wrong CRC is taken for a measurement.
-/

namespace PppAmb

def ESP_ERR_INVALID_CRC : EspErr := 0x109

/-! ### The CRC -/

/-- One bit of the CRC. -/
def crcBit (crc : UInt8) : UInt8 :=
  if crc &&& 0x80 ≠ 0 then (crc <<< 1) ^^^ 0x31 else crc <<< 1

/-- `sen5x_crc8`. -/
def sen5x_crc8 (data : Bytes) : UInt8 :=
  data.foldl (fun crc d => Nat.iterate crcBit 8 (crc ^^^ d)) 0xFF

/-- A reply of `n` words, each followed by its CRC. -/
abbrev Reply (n : ℕ) := Vector UInt8 (3 * n)

section Words

variable {n : ℕ} (data : Reply n) (i : Fin n)

/-- The two bytes of a word. -/
def Reply.bytes : Bytes :=
  [data.get ⟨3 * i, by omega⟩, data.get ⟨3 * i + 1, by omega⟩]

/-- `(data[3 * i] << 8) | data[3 * i + 1]`. -/
def Reply.word : UInt16 :=
  (data.get ⟨3 * i, by omega⟩).toUInt16 <<< 8 ||| (data.get ⟨3 * i + 1, by omega⟩).toUInt16

/-- `sen5x_crc8(&data[3 * i], 2) == data[3 * i + 2]`. -/
def Reply.crcRight : Bool :=
  sen5x_crc8 (data.bytes i) = data.get ⟨3 * i + 2, by omega⟩

/-- Every word of the reply is followed by its CRC. -/
def Reply.Checked : Prop :=
  ∀ i, data.crcRight i = true

end Words

/-! ### The bus -/

/-- The two devices. -/
inductive Device
  | scd4x
  | sen5x
  deriving DecidableEq, Repr

/-- The driver: the outcome of a transaction by its number, for a reception with the bytes of
the reply by their index. -/
structure I2c where
  transmit : ℕ → Device → Bytes → EspErr
  receive : ℕ → Device → EspErr × (ℕ → UInt8)

/-- The reply of a reception. -/
def I2c.reply (B : I2c) (k : ℕ) (device : Device) (n : ℕ) : Reply n :=
  Vector.ofFn fun i => (B.receive k device).2 i

/-- A reader: after some transactions it returns an error code or a value. -/
def BusM (α : Type) := ℕ → Except EspErr α × ℕ

/-- A reader that returns an error code returns from its callers too. -/
instance : Monad BusM where
  pure b k := (.ok b, k)
  bind x f k :=
    match x k with
    | (.ok b, k) => f b k
    | (.error ret, k) => (.error ret, k)

/-- `return ret;` with an error code. -/
def BusM.fail {α : Type} (ret : EspErr) : BusM α :=
  fun k => (.error ret, k)

/-- The number of the next transaction. -/
def BusM.transaction : BusM ℕ :=
  fun k => (.ok k, k + 1)

section Readers

variable (B : I2c) (a : Arith)

/-- A driver call that returned `ret`: `if (ret != ESP_OK) return ret;`. -/
def returnUnlessOk (ret : EspErr) : BusM Unit :=
  if ret ≠ ESP_OK then .fail ret else pure ()

/-- `i2c_master_transmit`. -/
def i2c_master_transmit (device : Device) (cmd : Bytes) : BusM Unit := do
  let k ← BusM.transaction
  returnUnlessOk (B.transmit k device cmd)

/-- `i2c_master_receive` of `n` words with their CRCs. -/
def i2c_master_receive (device : Device) (n : ℕ) : BusM (Reply n) := do
  let k ← BusM.transaction
  returnUnlessOk (B.receive k device).1
  return B.reply k device n

/-- What the SCD4x measures. -/
structure Scd4x where
  co2 : UInt16
  temperature : ℚ
  humidity : ℚ

/-- The conversion of the three words. -/
def Scd4x.ofReply (data : Reply 3) : Scd4x where
  co2 := data.word 0
  temperature :=
    a.float (-45 + a.float (175 * a.float ((data.word 1).toNat / 65535)))
  humidity := a.float (100 * a.float ((data.word 2).toNat / 65535))

/-- `scd4x_read_measurement`. -/
def scd4x_read_measurement : BusM Scd4x := do
  i2c_master_transmit B .scd4x [0xEC, 0x05]
  let data ← i2c_master_receive B .scd4x 3
  return .ofReply a data

/-- `sen5x_read_data_ready`. -/
def sen5x_read_data_ready : BusM UInt8 := do
  i2c_master_transmit B .sen5x [0x02, 0x02]
  let resp ← i2c_master_receive B .sen5x 1
  if resp.crcRight 0 then return resp.get 1 else .fail ESP_ERR_INVALID_CRC

/-- `sen5x_read_measured_values`. -/
def sen5x_read_measured_values : BusM (Reply 8) := do
  i2c_master_transmit B .sen5x [0x03, 0xC4]
  i2c_master_receive B .sen5x 8

/-- What the SEN5x measures. -/
structure Sen5x where
  pm1 : ℚ
  pm25 : ℚ
  pm4 : ℚ
  pm10 : ℚ
  rh : ℚ
  temp : ℚ
  voc_index : ℚ
  nox_index : ℚ

/-- The conversion of the eight words. -/
def Sen5x.ofReply (buf : Reply 8) : Sen5x where
  pm1 := a.float ((buf.word 0).toNat / 10)
  pm25 := a.float ((buf.word 1).toNat / 10)
  pm4 := a.float ((buf.word 2).toNat / 10)
  pm10 := a.float ((buf.word 3).toNat / 10)
  rh := a.float ((buf.word 4).toNat / 100)
  temp := a.float ((buf.word 5).toNat / 200)
  voc_index := a.float ((buf.word 6).toNat / 10)
  nox_index := a.float ((buf.word 7).toNat / 10)

/-- `sen5x_decode_measurement`; it stops at the first word whose CRC is wrong. -/
def sen5x_decode_measurement (buf : Reply 8) : Option Sen5x :=
  if (List.finRange 8).all buf.crcRight then some (.ofReply a buf) else none

/-- The polls of `data_ready`, as many as `timeout` says. -/
def pollDataReady : ℕ → UInt8 → BusM UInt8
  | 0, data_ready => return data_ready
  | timeout + 1, _ => do
      let data_ready ← sen5x_read_data_ready B
      if data_ready = 1 then return data_ready else pollDataReady timeout data_ready

/-- What both sensors give together. -/
def SensorData.of (scd : Scd4x) (sen : Sen5x) : SensorData where
  co2 := scd.co2
  scd_temp := scd.temperature
  scd_hum := scd.humidity
  pm1p0 := sen.pm1
  pm2p5 := sen.pm25
  pm4p0 := sen.pm4
  pm10p0 := sen.pm10
  voc := sen.voc_index
  nox := sen.nox_index
  sen_temp := sen.temp
  sen_hum := sen.rh
  avg_temp := a.float (a.float (scd.temperature + sen.temp) / 2)
  avg_hum := a.float (a.float (scd.humidity + sen.rh) / 2)

/-- The body of `sensors_read`. -/
def readBoth : BusM SensorData := do
  let scd ← scd4x_read_measurement B a
  let data_ready ← pollDataReady B 30 0
  if data_ready ≠ 1 then .fail ESP_ERR_TIMEOUT
  else
    let buf ← sen5x_read_measured_values B
    match sen5x_decode_measurement a buf with
    | none => .fail ESP_ERR_INVALID_CRC
    | some sen => return .of a scd sen

/-- `sensors_read`, for a pointer that is null or points to some data: the error code, the
data then pointed to, and the number of transactions made so far. -/
def sensors_read (out : Option SensorData) (k : ℕ) : EspErr × Option SensorData × ℕ :=
  match out with
  | none => (ESP_ERR_INVALID_ARG, none, k)
  | some old =>
      match readBoth B a k with
      | (.error ret, k) => (ret, some old, k)
      | (.ok data, k) => (ESP_OK, some data, k)

end Readers

/-! ### What a reader returns -/

section Returns

variable {B : I2c} {a : Arith} {α β : Type}

/-- The reader succeeds with the given value, and with the given count of transactions
after it. -/
def BusM.Gives (x : BusM α) (k : ℕ) (b : α) (k' : ℕ) : Prop :=
  x k = (.ok b, k')

theorem gives_pure {b c : α} {k k' : ℕ} : BusM.Gives (pure b) k c k' ↔ b = c ∧ k = k' := by
  have hpure : (pure b : BusM α) k = (.ok b, k) := rfl
  simp [BusM.Gives, hpure]

theorem not_gives_fail {ret : EspErr} {c : α} {k k' : ℕ} : ¬ BusM.Gives (.fail ret) k c k' := by
  simp [BusM.Gives, BusM.fail]

theorem bind_of_ok {x : BusM α} {b : α} {k m : ℕ} (h : x k = (.ok b, m)) (f : α → BusM β) :
    (x >>= f) k = f b m := by
  change (match x k with
    | (.ok b, m) => f b m
    | (.error ret, m) => (.error ret, m)) = _
  rw [h]

theorem bind_of_error {x : BusM α} {ret : EspErr} {k m : ℕ} (h : x k = (.error ret, m))
    (f : α → BusM β) : (x >>= f) k = (.error ret, m) := by
  change (match x k with
    | (.ok b, m) => f b m
    | (.error ret, m) => (.error ret, m)) = _
  rw [h]

/-- A reader made of two parts succeeds exactly when both do. -/
theorem gives_bind {x : BusM α} {f : α → BusM β} {c : β} {k k' : ℕ} :
    BusM.Gives (x >>= f) k c k' ↔ ∃ b m, x.Gives k b m ∧ (f b).Gives m c k' := by
  rcases hx : x k with ⟨ret | b, m⟩
  · simp [BusM.Gives, bind_of_error hx, hx]
  · simp [BusM.Gives, bind_of_ok hx, hx]

theorem gives_transaction {k m n : ℕ} : BusM.transaction.Gives k m n ↔ m = k ∧ n = k + 1 := by
  simp [BusM.Gives, BusM.transaction, eq_comm]

theorem gives_returnUnlessOk {ret : EspErr} {u : Unit} {k k' : ℕ} :
    (returnUnlessOk ret).Gives k u k' ↔ ret = ESP_OK ∧ k' = k := by
  rw [returnUnlessOk]
  split
  · rename_i h
    exact iff_of_false not_gives_fail (fun hok => h hok.1)
  · rename_i h
    rw [gives_pure]
    exact ⟨fun hk => ⟨not_not.mp h, hk.2.symm⟩, fun hk => ⟨rfl, hk.2.symm⟩⟩

theorem gives_transmit {device : Device} {cmd : Bytes} {u : Unit} {k k' : ℕ} :
    (i2c_master_transmit B device cmd).Gives k u k' ↔
      B.transmit k device cmd = ESP_OK ∧ k' = k + 1 := by
  simp only [i2c_master_transmit, gives_bind, gives_transaction, gives_returnUnlessOk]
  constructor
  · rintro ⟨m, n, ⟨rfl, rfl⟩, hok, rfl⟩
    exact ⟨hok, rfl⟩
  · rintro ⟨hok, rfl⟩
    exact ⟨k, k + 1, ⟨rfl, rfl⟩, hok, rfl⟩

theorem gives_receive {device : Device} {n : ℕ} {data : Reply n} {k k' : ℕ} :
    (i2c_master_receive B device n).Gives k data k' ↔
      (B.receive k device).1 = ESP_OK ∧ data = B.reply k device n ∧ k' = k + 1 := by
  simp only [i2c_master_receive, gives_bind, gives_transaction, gives_returnUnlessOk, gives_pure]
  constructor
  · rintro ⟨m, n, ⟨rfl, rfl⟩, u, m', ⟨hok, rfl⟩, rfl, rfl⟩
    exact ⟨hok, rfl, rfl⟩
  · rintro ⟨hok, rfl, rfl⟩
    exact ⟨k, k + 1, ⟨rfl, rfl⟩, (), k + 1, ⟨hok, rfl⟩, rfl, rfl⟩

/-- The device takes the command and answers it. -/
def I2c.Responds (B : I2c) (k : ℕ) (device : Device) (cmd : Bytes) : Prop :=
  B.transmit k device cmd = ESP_OK ∧ (B.receive (k + 1) device).1 = ESP_OK

theorem gives_scd4x_read_measurement {scd : Scd4x} {k k' : ℕ} :
    (scd4x_read_measurement B a).Gives k scd k' ↔
      B.Responds k .scd4x [0xEC, 0x05] ∧ scd = .ofReply a (B.reply (k + 1) .scd4x 3) ∧
        k' = k + 2 := by
  simp only [scd4x_read_measurement, gives_bind, gives_transmit, gives_receive, gives_pure]
  constructor
  · rintro ⟨u, m, ⟨hsent, rfl⟩, data, m', ⟨hgot, rfl, rfl⟩, rfl, rfl⟩
    exact ⟨⟨hsent, hgot⟩, rfl, rfl⟩
  · rintro ⟨⟨hsent, hgot⟩, rfl, rfl⟩
    exact ⟨(), k + 1, ⟨hsent, rfl⟩, _, k + 2, ⟨hgot, rfl, rfl⟩, rfl, rfl⟩

/-- A poll is answered with the given flag, under a right CRC. -/
def I2c.Polled (B : I2c) (k : ℕ) (data_ready : UInt8) : Prop :=
  B.Responds k .sen5x [0x02, 0x02] ∧ (B.reply (k + 1) .sen5x 1).crcRight 0 = true ∧
    (B.reply (k + 1) .sen5x 1).get 1 = data_ready

theorem gives_sen5x_read_data_ready {data_ready : UInt8} {k k' : ℕ} :
    (sen5x_read_data_ready B).Gives k data_ready k' ↔ B.Polled k data_ready ∧ k' = k + 2 := by
  simp only [sen5x_read_data_ready, gives_bind, gives_transmit, gives_receive]
  constructor
  · rintro ⟨u, m, ⟨hsent, rfl⟩, resp, m', ⟨hgot, rfl, rfl⟩, hresp⟩
    split at hresp
    · rename_i hcrc
      obtain ⟨hflag, rfl⟩ := gives_pure.mp hresp
      exact ⟨⟨⟨hsent, hgot⟩, hcrc, hflag⟩, rfl⟩
    · exact absurd hresp not_gives_fail
  · rintro ⟨⟨⟨hsent, hgot⟩, hcrc, hflag⟩, rfl⟩
    refine ⟨(), k + 1, ⟨hsent, rfl⟩, _, k + 2, ⟨hgot, rfl, rfl⟩, ?_⟩
    rw [if_pos hcrc, gives_pure]
    exact ⟨hflag, rfl⟩

/-- The data is ready at the poll number `j`, and at no poll before it. -/
def I2c.ReadyAt (B : I2c) (k j : ℕ) : Prop :=
  (∀ i < j, ∃ data_ready, data_ready ≠ 1 ∧ B.Polled (k + 2 * i) data_ready) ∧
    B.Polled (k + 2 * j) 1

/-- **The polls** end with the flag 1 exactly when the data is ready in time. -/
theorem gives_pollDataReady {timeout k k' : ℕ} {data_ready : UInt8} (hstart : data_ready ≠ 1) :
    (pollDataReady B timeout data_ready).Gives k 1 k' ↔
      ∃ j < timeout, B.ReadyAt k j ∧ k' = k + 2 * j + 2 := by
  induction timeout generalizing k data_ready with
  | zero =>
      rw [pollDataReady, gives_pure]
      exact iff_of_false (fun h => hstart h.1) (by simp)
  | succ timeout ih =>
      simp only [pollDataReady, gives_bind, gives_sen5x_read_data_ready]
      constructor
      · rintro ⟨flag, m, ⟨hpoll, rfl⟩, hrest⟩
        by_cases hflag : flag = 1
        · subst hflag
          rw [if_pos rfl, gives_pure] at hrest
          exact ⟨0, by omega, ⟨by simp, hpoll⟩, hrest.2.symm⟩
        · rw [if_neg hflag, ih hflag] at hrest
          obtain ⟨j, hj, ⟨hbefore, hready⟩, rfl⟩ := hrest
          refine ⟨j + 1, by omega, ⟨fun i hi => ?_, ?_⟩, by omega⟩
          · rcases i with _ | i
            · exact ⟨flag, hflag, hpoll⟩
            · rw [show k + 2 * (i + 1) = k + 2 + 2 * i by omega]
              exact hbefore i (by omega)
          · rwa [show k + 2 * (j + 1) = k + 2 + 2 * j by omega]
      · rintro ⟨j, hj, ⟨hbefore, hready⟩, rfl⟩
        rcases j with _ | j
        · exact ⟨1, k + 2, ⟨hready, rfl⟩, by rw [if_pos rfl, gives_pure]; exact ⟨rfl, rfl⟩⟩
        · obtain ⟨flag, hflag, hpoll⟩ := hbefore 0 (by omega)
          refine ⟨flag, k + 2, ⟨hpoll, rfl⟩, ?_⟩
          rw [if_neg hflag, ih hflag]
          refine ⟨j, by omega, ⟨fun i hi => ?_, ?_⟩, by omega⟩
          · rw [show k + 2 + 2 * i = k + 2 * (i + 1) by omega]
            exact hbefore (i + 1) (by omega)
          · rwa [show k + 2 + 2 * j = k + 2 * (j + 1) by omega]

theorem gives_sen5x_read_measured_values {buf : Reply 8} {k k' : ℕ} :
    (sen5x_read_measured_values B).Gives k buf k' ↔
      B.Responds k .sen5x [0x03, 0xC4] ∧ buf = B.reply (k + 1) .sen5x 8 ∧ k' = k + 2 := by
  simp only [sen5x_read_measured_values, gives_bind, gives_transmit, gives_receive]
  constructor
  · rintro ⟨u, m, ⟨hsent, rfl⟩, hgot, rfl, rfl⟩
    exact ⟨⟨hsent, hgot⟩, rfl, rfl⟩
  · rintro ⟨⟨hsent, hgot⟩, rfl, rfl⟩
    exact ⟨(), k + 1, ⟨hsent, rfl⟩, hgot, rfl, rfl⟩

theorem sen5x_decode_measurement_eq_some {buf : Reply 8} {sen : Sen5x} :
    sen5x_decode_measurement a buf = some sen ↔ buf.Checked ∧ sen = .ofReply a buf := by
  have hall : (List.finRange 8).all buf.crcRight = true ↔ buf.Checked := by
    simp [Reply.Checked, List.all_eq_true]
  rw [sen5x_decode_measurement, ← hall]
  split
  · rename_i h
    simp [h, eq_comm]
  · rename_i h
    simp [h]

/-- Everything but the CRCs of the SCD4x is in order in a call that starts with transaction
`k` and finds the data ready at poll `j`: the transactions succeed, and the CRCs of the
SEN5x are right. -/
structure I2c.InOrder (B : I2c) (k j : ℕ) : Prop where
  scd : B.Responds k .scd4x [0xEC, 0x05]
  ready : B.ReadyAt (k + 2) j
  values : B.Responds (k + 2 * j + 4) .sen5x [0x03, 0xC4]
  checked : (B.reply (k + 2 * j + 5) .sen5x 8).Checked

/-- What the replies of such a call give. -/
def I2c.measured (B : I2c) (a : Arith) (k j : ℕ) : SensorData :=
  .of a (.ofReply a (B.reply (k + 1) .scd4x 3)) (.ofReply a (B.reply (k + 2 * j + 5) .sen5x 8))

theorem gives_readBoth {data : SensorData} {k k' : ℕ} :
    (readBoth B a).Gives k data k' ↔
      ∃ j < 30, B.InOrder k j ∧ data = B.measured a k j ∧ k' = k + 2 * j + 6 := by
  simp only [readBoth, gives_bind, gives_scd4x_read_measurement]
  constructor
  · rintro ⟨scd, m, ⟨hscd, rfl, rfl⟩, flag, m', hpolls, hrest⟩
    by_cases hflag : flag = 1
    · subst hflag
      obtain ⟨j, hj, hready, rfl⟩ := (gives_pollDataReady (by decide)).mp hpolls
      rw [if_neg (by simp), gives_bind] at hrest
      obtain ⟨buf, m, hvalues, hdecode⟩ := hrest
      obtain ⟨hresponds, rfl, rfl⟩ := gives_sen5x_read_measured_values.mp hvalues
      have h4 : k + 2 + 2 * j + 2 = k + 2 * j + 4 := by omega
      have h5 : k + 2 + 2 * j + 2 + 1 = k + 2 * j + 5 := by omega
      rw [h4] at hresponds
      split at hdecode
      · exact absurd hdecode not_gives_fail
      · rename_i sen hsen
        obtain ⟨hchecked, rfl⟩ := sen5x_decode_measurement_eq_some.mp hsen
        obtain ⟨rfl, rfl⟩ := gives_pure.mp hdecode
        rw [h5] at hchecked ⊢
        exact ⟨j, hj, ⟨hscd, hready, hresponds, hchecked⟩, rfl, by omega⟩
    · rw [if_pos hflag] at hrest
      exact absurd hrest not_gives_fail
  · rintro ⟨j, hj, ⟨hscd, hready, hvalues, hchecked⟩, rfl, rfl⟩
    refine ⟨_, k + 2, ⟨hscd, rfl, rfl⟩, 1, k + 2 * j + 4, ?_, ?_⟩
    · exact (gives_pollDataReady (by decide)).mpr ⟨j, hj, hready, by omega⟩
    · rw [if_neg (by simp), gives_bind]
      refine ⟨_, k + 2 * j + 6, gives_sen5x_read_measured_values.mpr ⟨hvalues, rfl, rfl⟩, ?_⟩
      rw [(sen5x_decode_measurement_eq_some (a := a)).mpr ⟨hchecked, rfl⟩, gives_pure]
      exact ⟨rfl, rfl⟩

/-! ### What `sensors_read` returns -/

/-- The reader never fails with `ESP_OK`. -/
def BusM.FailsWithError (x : BusM α) : Prop :=
  ∀ k ret k', x k = (.error ret, k') → ret ≠ ESP_OK

theorem failsWithError_pure (b : α) : BusM.FailsWithError (pure b) := by
  intro k ret k' h
  have hpure : (pure b : BusM α) k = (.ok b, k) := rfl
  simp [hpure] at h

theorem failsWithError_fail {ret : EspErr} (hret : ret ≠ ESP_OK) :
    BusM.FailsWithError (.fail ret : BusM α) := by
  intro k ret' k' h
  simp only [BusM.fail, Prod.mk.injEq, Except.error.injEq] at h
  exact h.1 ▸ hret

theorem BusM.FailsWithError.bind {x : BusM α} {f : α → BusM β} (hx : x.FailsWithError)
    (hf : ∀ b, (f b).FailsWithError) : BusM.FailsWithError (x >>= f) := by
  intro k ret k' h
  rcases hres : x k with ⟨ret' | b, m⟩
  · simp only [bind_of_error hres, Prod.mk.injEq, Except.error.injEq] at h
    exact h.1 ▸ hx k ret' m hres
  · rw [bind_of_ok hres] at h
    exact hf b m ret k' h

theorem failsWithError_transmit (device : Device) (cmd : Bytes) :
    (i2c_master_transmit B device cmd).FailsWithError := by
  refine .bind (fun k ret k' h => by simp [BusM.transaction] at h) fun k => ?_
  rw [returnUnlessOk]
  split
  · exact failsWithError_fail ‹_›
  · exact failsWithError_pure ()

theorem failsWithError_receive (device : Device) (n : ℕ) :
    (i2c_master_receive B device n).FailsWithError := by
  refine .bind (fun k ret k' h => by simp [BusM.transaction] at h) fun k => .bind ?_ fun _ =>
    failsWithError_pure _
  rw [returnUnlessOk]
  split
  · exact failsWithError_fail ‹_›
  · exact failsWithError_pure ()

theorem failsWithError_sen5x_read_data_ready : (sen5x_read_data_ready B).FailsWithError := by
  refine .bind (failsWithError_transmit _ _) fun _ => .bind (failsWithError_receive _ _) fun resp => ?_
  split
  · exact failsWithError_pure _
  · exact failsWithError_fail (by decide)

theorem failsWithError_pollDataReady (timeout : ℕ) (data_ready : UInt8) :
    (pollDataReady B timeout data_ready).FailsWithError := by
  induction timeout generalizing data_ready with
  | zero => exact failsWithError_pure _
  | succ timeout ih =>
      refine .bind failsWithError_sen5x_read_data_ready fun flag => ?_
      split
      · exact failsWithError_pure _
      · exact ih flag

theorem failsWithError_readBoth : (readBoth B a).FailsWithError := by
  refine .bind ?_ fun scd => .bind (failsWithError_pollDataReady _ _) fun data_ready => ?_
  · exact .bind (failsWithError_transmit _ _) fun _ => .bind (failsWithError_receive _ _) fun _ =>
      failsWithError_pure _
  · split
    · exact failsWithError_fail (by decide)
    · refine .bind ?_ fun buf => ?_
      · exact .bind (failsWithError_transmit _ _) fun _ => failsWithError_receive _ _
      · split
        · exact failsWithError_fail (by decide)
        · exact failsWithError_pure _

/-- **When `sensors_read` returns `ESP_OK`**, and with which data. -/
theorem sensors_read_ok_iff {out data : Option SensorData} {k k' : ℕ} :
    sensors_read B a out k = (ESP_OK, data, k') ↔ out.isSome ∧
      ∃ j < 30, B.InOrder k j ∧ data = some (B.measured a k j) ∧ k' = k + 2 * j + 6 := by
  cases out with
  | none =>
      refine iff_of_false (fun h => ?_) (by simp)
      simp [sensors_read, ESP_ERR_INVALID_ARG, ESP_OK] at h
  | some old =>
      rcases hread : readBoth B a k with ⟨ret | d, m⟩
      · have hret := failsWithError_readBoth k ret m hread
        refine iff_of_false (fun h => ?_) ?_
        · simp only [sensors_read, hread, Prod.mk.injEq] at h
          exact hret h.1
        · rintro ⟨-, j, hj, horder, -, -⟩
          have hgives := (gives_readBoth (a := a)).mpr ⟨j, hj, horder, rfl, rfl⟩
          rw [BusM.Gives, hread] at hgives
          simp at hgives
      · have hgives := gives_readBoth.mp hread
        simp only [sensors_read, hread, Prod.mk.injEq, true_and, Option.isSome_some]
        constructor
        · rintro ⟨rfl, rfl⟩
          obtain ⟨j, hj, horder, rfl, rfl⟩ := hgives
          exact ⟨j, hj, horder, rfl, rfl⟩
        · rintro ⟨j, hj, horder, rfl, rfl⟩
          have hgives' := (gives_readBoth (a := a)).mpr ⟨j, hj, horder, rfl, rfl⟩
          rw [BusM.Gives, hread, Prod.mk.injEq, Except.ok.injEq] at hgives'
          exact ⟨congrArg some hgives'.1, hgives'.2⟩

end Returns

/-- **Checked words.** For every bus and every content of the replies: `sensors_read` returns
`ESP_OK` only if each word of the reply of the SCD4x, the second transaction of the call, and
of the reply of the SEN5x, its last transaction, is followed by its CRC, if and only if the
SCD4x sends right CRCs whenever the pointer is not null and everything else is in order. -/
theorem sensors_read_checked_iff (B : I2c) (a : Arith) (out : Option SensorData) (k : ℕ) :
    (∀ data k', sensors_read B a out k = (ESP_OK, data, k') →
      (B.reply (k + 1) .scd4x 3).Checked ∧ (B.reply (k' - 1) .sen5x 8).Checked) ↔
      (out.isSome → (∃ j < 30, B.InOrder k j) → (B.reply (k + 1) .scd4x 3).Checked) := by
  constructor
  · rintro h hout ⟨j, hj, horder⟩
    exact (h _ _ (sensors_read_ok_iff.mpr ⟨hout, j, hj, horder, rfl, rfl⟩)).1
  · intro h data k' hread
    obtain ⟨hout, j, hj, horder, -, rfl⟩ := sensors_read_ok_iff.mp hread
    exact ⟨h hout ⟨j, hj, horder⟩, horder.checked⟩

/-- All transactions succeed. The SCD4x answers with zeros, CRCs included; the SEN5x with the
word 1, or with zeros, each followed by its CRC. -/
def zeroedScd4x : I2c where
  transmit _ _ _ := ESP_OK
  receive k device :=
    match device with
    | .scd4x => (ESP_OK, fun _ => 0)
    | .sen5x =>
        (ESP_OK, fun i =>
          if k = 3 then if i = 0 then 0 else if i = 1 then 1 else 0xB0
          else if i % 3 = 2 then 0x81 else 0)

theorem zeroedScd4x_inOrder : zeroedScd4x.InOrder 0 0 :=
  ⟨⟨rfl, rfl⟩, ⟨by simp, ⟨rfl, rfl⟩, by decide +kernel, rfl⟩, ⟨rfl, rfl⟩, by
    unfold Reply.Checked
    decide +kernel⟩

/-- **A corrupted measurement.** The CRC of two zero bytes is not zero, but the reply of the
SCD4x is taken for a measurement. -/
theorem corrupted_scd4x_accepted :
    ¬ ∀ (B : I2c) (a : Arith) (out : Option SensorData) (k : ℕ) data k',
      sensors_read B a out k = (ESP_OK, data, k') →
        (B.reply (k + 1) .scd4x 3).Checked ∧ (B.reply (k' - 1) .sen5x 8).Checked := by
  intro h
  have hread := h zeroedScd4x .exact (some (zeroedScd4x.measured .exact 0 0)) 0 _ _
    (sensors_read_ok_iff.mpr ⟨rfl, 0, by omega, zeroedScd4x_inOrder, rfl, rfl⟩)
  exact absurd (hread.1 0) (by decide +kernel)

end PppAmb
