import PppAmb.CFormat
import PppAmb.Store

/-!
# The Sensor Task

`sensor_task` of `main/main.c` with `sensors_format_json` of `main/sensors.c`: one step of
the machine is one round of its `while (1)` loop.

The sensors, the clocks and the database are outside: a `Tick` says what they do during
one round. A `PUT` is a list of attempts, each of which the database applies or not; what
`firebase_putData` returns is not looked at. A trim returns a number and removes some of
the oldest records. The refresh of the token every 50 minutes only shows in its timer. A
`time_t` has 64 bits. Floating-point numbers are rationals, and every operation on them is
rounded as `Arith` says.

The field `history` of the state is bookkeeping that the program does not have: what was
sent in each batch and what became of it. The database is part of the state for the same
purpose.
-/

namespace PppAmb

/-- `SensorData`. -/
structure SensorData where
  co2 : UInt16
  scd_temp : ℚ
  scd_hum : ℚ
  pm1p0 : ℚ
  pm2p5 : ℚ
  pm4p0 : ℚ
  pm10p0 : ℚ
  voc : ℚ
  nox : ℚ
  sen_temp : ℚ
  sen_hum : ℚ
  avg_temp : ℚ
  avg_hum : ℚ
  deriving DecidableEq

/-- The rounding of `double` and of `float` arithmetic. -/
structure Arith where
  double : ℚ → ℚ
  float : ℚ → ℚ

/-- Arithmetic without rounding. -/
def Arith.exact : Arith :=
  ⟨id, id⟩

/-- What does not change during a run: the arithmetic, `g_city_state`, `DEVICE_ID`, and
`inicio_str`, which is set before the loop. -/
structure Setting where
  arith : Arith
  city_state : CStr
  device_id : CStr
  inicio_str : Bytes

/-! ### Records -/

/-- The name of a member of a record. -/
inductive Field
  | pm1p0
  | pm2p5
  | pm4p0
  | pm10p0
  | voc
  | nox
  | cTe
  | cHu
  | co2
  | fecha
  | inicio
  | ciudad
  | hora
  | id
  deriving DecidableEq, Repr

def Field.name : Field → Bytes
  | .pm1p0 => ascii "pm1p0"
  | .pm2p5 => ascii "pm2p5"
  | .pm4p0 => ascii "pm4p0"
  | .pm10p0 => ascii "pm10p0"
  | .voc => ascii "voc"
  | .nox => ascii "nox"
  | .cTe => ascii "cTe"
  | .cHu => ascii "cHu"
  | .co2 => ascii "co2"
  | .fecha => ascii "fecha"
  | .inicio => ascii "inicio"
  | .ciudad => ascii "ciudad"
  | .hora => ascii "hora"
  | .id => ascii "id"

/-- The three layouts of a record. -/
inductive Layout
  | first
  | newDate
  | sameDate
  deriving DecidableEq, Repr

/-- The members behind the measurements, in the order in which the layout prints them. -/
def Layout.labels : Layout → List Field
  | .first => [.fecha, .inicio, .ciudad, .hora, .id]
  | .newDate => [.fecha, .hora]
  | .sameDate => [.hora]

/-- One record as it is sent. -/
structure Record where
  layout : Layout
  avg : SensorData
  tm : Tm
  deriving DecidableEq

/-- `fecha_actual`. -/
def Tm.fecha (tm : Tm) : Bytes :=
  strftime tm (ascii "%d-%m-%Y")

/-- `hora_envio`, and `inicio_str` for the time of the start. -/
def Tm.hora (tm : Tm) : Bytes :=
  strftime tm (ascii "%H:%M:%S")

/-- `clave_min`. -/
def Tm.clave (tm : Tm) : Bytes :=
  strftime tm (ascii "%y-%m-%d_%H-%M-%S")

/-- The text of a member, for a string without its quotes. -/
def Record.text (c : Setting) (r : Record) : Field → Bytes
  | .pm1p0 => fixed 2 r.avg.pm1p0
  | .pm2p5 => fixed 2 r.avg.pm2p5
  | .pm4p0 => fixed 2 r.avg.pm4p0
  | .pm10p0 => fixed 2 r.avg.pm10p0
  | .voc => fixed 1 r.avg.voc
  | .nox => fixed 1 r.avg.nox
  | .cTe => fixed 2 r.avg.avg_temp
  | .cHu => fixed 2 r.avg.avg_hum
  | .co2 => unsigned r.avg.co2.toNat
  | .fecha => r.tm.fecha
  | .inicio => c.inicio_str
  | .ciudad => c.city_state.bytes
  | .hora => r.tm.hora
  | .id => c.device_id.bytes

/-- The measurements, in the order in which every layout prints them. -/
def measures : List Field :=
  [.pm1p0, .pm2p5, .pm4p0, .pm10p0, .voc, .nox, .cTe, .cHu, .co2]

/-- The members of a record. -/
def Record.fields (r : Record) : List Field :=
  measures ++ r.layout.labels

/-- One member as it is printed; everything but the measurements is quoted. -/
def Record.member (c : Setting) (r : Record) (f : Field) : Bytes :=
  let quote := if f ∈ measures then [] else ascii "\""
  ascii "\"" ++ f.name ++ ascii "\":" ++ quote ++ r.text c f ++ quote

/-- The array `json`, as `sensors_format_json` or `snprintf` fills it. -/
def Record.json (c : Setting) (r : Record) : Bytes :=
  snprintf (ascii "\x7b" ++ ((r.fields.map (r.member c)).intersperse (ascii ",")).flatten
    ++ ascii "\x7d") 384

/-! ### The loop -/

/-- The sums of the measurements. -/
structure Sums where
  pm1p0 : ℚ
  pm2p5 : ℚ
  pm4p0 : ℚ
  pm10p0 : ℚ
  voc : ℚ
  nox : ℚ
  avg_temp : ℚ
  avg_hum : ℚ
  deriving DecidableEq

def Sums.zero : Sums :=
  ⟨0, 0, 0, 0, 0, 0, 0, 0⟩

/-- One sample is added to the sums. -/
def Sums.add (a : Arith) (s : Sums) (d : SensorData) : Sums where
  pm1p0 := a.double (s.pm1p0 + d.pm1p0)
  pm2p5 := a.double (s.pm2p5 + d.pm2p5)
  pm4p0 := a.double (s.pm4p0 + d.pm4p0)
  pm10p0 := a.double (s.pm10p0 + d.pm10p0)
  voc := a.double (s.voc + d.voc)
  nox := a.double (s.nox + d.nox)
  avg_temp := a.double (s.avg_temp + d.avg_temp)
  avg_hum := a.double (s.avg_hum + d.avg_hum)

/-- What the database does with one attempt of a `PUT`. -/
inductive Fate
  | applied
  | appliedAckLost
  | notApplied
  deriving DecidableEq, Repr

def Fate.applies : Fate → Bool
  | .applied | .appliedAckLost => true
  | .notApplied => false

/-- What `firebase_trim_oldest_batch` returns, and how many of the oldest records are gone
afterwards. -/
structure Trim where
  deleted : Int
  removed : ℕ
  deriving DecidableEq

/-- What the outside does during one round. -/
structure Tick where
  read : Option SensorData
  now_epoch : Int64
  put : List Fate
  trim : Trim
  now_us : Int

/-- The record of one batch: what was sent, whether it reached the database and whether
it is one more record there, the bounds of the retention, the trim if there was one, and
how many records were stored before it. -/
structure Batch where
  record : Record
  reached : Bool
  added : Bool
  max_items : ℕ
  high_water : ℕ
  trim : Option Trim
  stored : ℕ

/-- The variables of `sensor_task`, with the database and the history. -/
structure Task where
  first_send : Bool
  sample_count : ℕ
  sums : Sums
  sum_co2 : UInt32
  last_fecha_str : Bytes
  next_refresh_us : Int
  avg_size : ℚ
  approx_count : ℕ
  db : Store Bytes Bytes
  history : List Batch

def SAMPLES_PER_BATCH : ℕ := 5

def MAX_BYTES : ℕ := 10 * 1024 * 1024

/-- `TZ=UTC6`: seconds west of UTC. -/
def UTC6 : Int := 6 * 3600

def REFRESH_US : Int := 50 * 60 * 1000000

/-- The state in which the loop is entered, with the records that are left after the
initial `firebase_delete`. -/
def Task.start (db : Store Bytes Bytes) (now_us : Int) : Task where
  first_send := true
  sample_count := 0
  sums := .zero
  sum_co2 := 0
  last_fecha_str := []
  next_refresh_us := now_us + REFRESH_US
  avg_size := 256
  approx_count := 0
  db := db
  history := []

/-- `inicio_str`. -/
def inicio_str (start_epoch : Int64) : Bytes :=
  (localtime_r UTC6 start_epoch.toInt).hora

/-- A successful read is counted and added up. -/
def Task.sample (a : Arith) (s : Task) (d : SensorData) : Task :=
  { s with
    sample_count := s.sample_count + 1
    sums := s.sums.add a d
    sum_co2 := s.sum_co2 + d.co2.toUInt32 }

/-- The averages of a batch. -/
def Task.avg (a : Arith) (s : Task) : SensorData :=
  let mean (sum : ℚ) := a.float (a.double (sum / s.sample_count))
  { co2 := (s.sum_co2 / UInt32.ofNat s.sample_count).toUInt16
    scd_temp := mean s.sums.avg_temp
    scd_hum := mean s.sums.avg_hum
    pm1p0 := mean s.sums.pm1p0
    pm2p5 := mean s.sums.pm2p5
    pm4p0 := mean s.sums.pm4p0
    pm10p0 := mean s.sums.pm10p0
    voc := mean s.sums.voc
    nox := mean s.sums.nox
    sen_temp := mean s.sums.avg_temp
    sen_hum := mean s.sums.avg_hum
    avg_temp := mean s.sums.avg_temp
    avg_hum := mean s.sums.avg_hum }

/-- The layout of the next record. -/
def Task.layout (s : Task) (fecha_actual : Bytes) : Layout :=
  if s.first_send then .first
  else if s.last_fecha_str ≠ fecha_actual then .newDate
  else .sameDate

/-- `last_fecha_str` after a record: it is copied whenever the record carries the date. -/
def Task.nextFecha (s : Task) (fecha_actual : Bytes) : Bytes :=
  match s.layout fecha_actual with
  | .first | .newDate => strlcpy fecha_actual 20
  | .sameDate => s.last_fecha_str

/-- The record of a batch that is sent at the given time. -/
def Task.record (c : Setting) (s : Task) (now_epoch : Int64) : Record :=
  let tm := localtime_r UTC6 now_epoch.toInt
  ⟨s.layout tm.fecha, s.avg c.arith, tm⟩

/-- `avg_size` after a record of the given length. -/
def nextAvgSize (a : Arith) (avg_size : ℚ) (item_len : ℕ) : ℚ :=
  a.double (a.double (avg_size * a.double (9 / 10)) + a.double (a.double (1 / 10) * item_len))

/-- `max_items` for an average size. -/
def maxItems (a : Arith) (avg_size : ℚ) : ℕ :=
  ⌊a.double (MAX_BYTES / if avg_size > 1 then avg_size else 1)⌋.toNat % 2 ^ 32

/-- `approx_count` after a trim. -/
def approxAfter (approx_count : ℕ) (deleted : Int) : ℕ :=
  if deleted > 0 then
    if approx_count > deleted.toNat then approx_count - deleted.toNat else 0
  else approx_count

/-- The database after the `PUT` of a batch. -/
def Task.dbAfterPut (c : Setting) (s : Task) (t : Tick) : Store Bytes Bytes :=
  let record := s.record c t.now_epoch
  if t.put.any Fate.applies then s.db.put record.tm.clave (record.json c) else s.db

/-- The batch that is sent, with what the retention finds: the oldest records are trimmed
if `approx_count`, with this batch counted, is above `high_water`. -/
def Task.batch (c : Setting) (s : Task) (t : Tick) : Batch :=
  let record := s.record c t.now_epoch
  let avg_size := nextAvgSize c.arith s.avg_size (record.json c).length
  let max_items := maxItems c.arith avg_size
  let high_water := (max_items + 50) % 2 ^ 32
  { record := record
    reached := t.put.any Fate.applies
    added := s.db.size < (s.dbAfterPut c t).size
    max_items := max_items
    high_water := high_water
    trim := if (s.approx_count + 1) % 2 ^ 32 > high_water then some t.trim else none
    stored := (s.dbAfterPut c t).size }

/-- A full batch: the record is sent, the retention is applied, the sums are reset. -/
def Task.send (c : Setting) (s : Task) (t : Tick) : Task :=
  let batch := s.batch c t
  let approx_count := (s.approx_count + 1) % 2 ^ 32
  { s with
    first_send := false
    last_fecha_str := s.nextFecha batch.record.tm.fecha
    avg_size := nextAvgSize c.arith s.avg_size (batch.record.json c).length
    approx_count :=
      match batch.trim with
      | some trim => approxAfter approx_count trim.deleted
      | none => approx_count
    db :=
      match batch.trim with
      | some trim => (s.dbAfterPut c t).dropFirst trim.removed
      | none => s.dbAfterPut c t
    sample_count := 0
    sums := .zero
    sum_co2 := 0
    history := s.history ++ [batch] }

/-- The beginning of a round: a failed read changes nothing. -/
def Task.collect (a : Arith) (s : Task) (t : Tick) : Task :=
  match t.read with
  | some d => s.sample a d
  | none => s

/-- The end of a round: the timer of the token refresh. -/
def Task.timer (s : Task) (t : Tick) : Task :=
  if t.now_us ≥ s.next_refresh_us then { s with next_refresh_us := t.now_us + REFRESH_US } else s

/-- One round of the loop. -/
def Task.step (c : Setting) (s : Task) (t : Tick) : Task :=
  let s := s.collect c.arith t
  let s := if s.sample_count ≥ SAMPLES_PER_BATCH then s.send c t else s
  s.timer t

/-- The rounds of a run. -/
def Task.run (c : Setting) (s : Task) (ticks : List Tick) : Task :=
  ticks.foldl (Task.step c) s

theorem Task.run_snoc (c : Setting) (s : Task) (ticks : List Tick) (t : Tick) :
    s.run c (ticks ++ [t]) = (s.run c ticks).step c t :=
  List.foldl_concat ..

/-! ### What a round can do -/

section Cases

variable (c : Setting) (s : Task) (t : Tick)

/-- The two states differ at most in their timers. -/
structure SameBut (s s' : Task) : Prop where
  first_send : s'.first_send = s.first_send
  sample_count : s'.sample_count = s.sample_count
  sums : s'.sums = s.sums
  sum_co2 : s'.sum_co2 = s.sum_co2
  last_fecha_str : s'.last_fecha_str = s.last_fecha_str
  avg_size : s'.avg_size = s.avg_size
  approx_count : s'.approx_count = s.approx_count
  db : s'.db = s.db
  history : s'.history = s.history

/-- The two states differ at most in their timers and their accumulators. -/
structure Quiet (s s' : Task) : Prop where
  first_send : s'.first_send = s.first_send
  last_fecha_str : s'.last_fecha_str = s.last_fecha_str
  avg_size : s'.avg_size = s.avg_size
  approx_count : s'.approx_count = s.approx_count
  db : s'.db = s.db
  history : s'.history = s.history

theorem Task.timer_same : SameBut s (s.timer t) := by
  rw [Task.timer]
  split <;> exact ⟨rfl, rfl, rfl, rfl, rfl, rfl, rfl, rfl, rfl⟩

theorem Task.collect_quiet (a : Arith) : Quiet s (s.collect a t) := by
  rw [Task.collect]
  split <;> exact ⟨rfl, rfl, rfl, rfl, rfl, rfl⟩

/-- **What a round can do**: it sends no batch, or it sends one from a state that differs
in the accumulators only. -/
theorem Task.step_cases : Quiet s (s.step c t) ∨
    ∃ s₁, Quiet s s₁ ∧ SameBut (s₁.send c t) (s.step c t) := by
  have hcollect := s.collect_quiet t c.arith
  rw [Task.step]
  by_cases hfull : (s.collect c.arith t).sample_count ≥ SAMPLES_PER_BATCH
  · simp only [hfull, if_true]
    exact Or.inr ⟨_, hcollect, Task.timer_same _ t⟩
  · simp only [hfull, if_false]
    have htimer := (s.collect c.arith t).timer_same t
    exact Or.inl ⟨htimer.first_send.trans hcollect.first_send,
      htimer.last_fecha_str.trans hcollect.last_fecha_str, htimer.avg_size.trans hcollect.avg_size,
      htimer.approx_count.trans hcollect.approx_count, htimer.db.trans hcollect.db,
      htimer.history.trans hcollect.history⟩

end Cases

end PppAmb
