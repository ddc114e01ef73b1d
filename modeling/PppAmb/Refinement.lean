import PppAmb.Backend
import PppAmb.RecordText
import PppAmb.Retention

/-!
# The Program Refines the Machine of the Records

`SensorTask` describes a round of `sensor_task` by what the sensors, the clocks and the database
do in it. This module shows that the rounds of `SensorLoop`, which call the sensors on their bus
and the database through the HTTP client, are rounds of that machine: whatever becomes of the
requests, there are ticks on which the machine keeps the same variables and a matching database.
So what holds of every run of the machine holds of the program.

## Main results

* `Matched.round`, `Matched.run`: one round of the program is one round of the machine, and so
  are the rounds that follow it.
* `sensor_task_refines`: every run of the program, from its start on, is a run of the machine.
* `stored_right`: every document that the program adds to the database is the text of a record
  made of five consecutive samples of the sensors, under the key of its time.
-/

namespace PppAmb

/-! ### Texts without a terminator -/

theorem nulFree_of_digits {s : Bytes} (h : ∀ c ∈ s, isDigitOf 10 c = true) : NulFree s := by
  rintro b hb rfl
  exact absurd (h 0 hb) (by decide)

theorem nulFree_unsigned (n : ℕ) : NulFree (unsigned n) :=
  nulFree_of_digits (unsigned_digits n)

theorem nulFree_twoDigits (n : ℕ) : NulFree (twoDigits n) := by
  refine nulFree_of_digits fun c hc => ?_
  simp only [twoDigits, List.mem_cons, List.not_mem_nil, or_false] at hc
  rcases hc with rfl | rfl <;> exact isDigitOf_digit _

theorem nulFree_fixed (digits : ℕ) (q : ℚ) : NulFree (fixed digits q) := by
  have hlast : NulFree (lastDigits digits (roundHalfEven (|q| * 10 ^ digits))) := by
    refine nulFree_of_digits fun c hc => ?_
    obtain ⟨i, -, rfl⟩ := List.mem_map.mp hc
    exact isDigitOf_digit _
  have hsign : NulFree (if q < 0 then ascii "-" else []) := by
    split <;> decide
  exact ((hsign.append (nulFree_unsigned _)).append (by decide)).append hlast

theorem nulFree_hora (tm : Tm) : NulFree tm.hora := by
  have hmark : NulFree [ch ':'] := by decide
  rw [hora_eq]
  exact (nulFree_twoDigits _).append (hmark.append ((nulFree_twoDigits _).append
    (hmark.append (nulFree_twoDigits _))))

theorem nulFree_fecha (tm : Tm) : NulFree tm.fecha := by
  have hmark : NulFree [ch '-'] := by decide
  rw [fecha_eq]
  exact (nulFree_twoDigits _).append (hmark.append ((nulFree_twoDigits _).append
    (hmark.append (nulFree_toString _))))

theorem nulFree_text {c : Setting} (hinicio : NulFree c.inicio_str) (r : Record) (f : Field) :
    NulFree (r.text c f) := by
  cases f with
  | fecha => exact nulFree_fecha _
  | hora => exact nulFree_hora _
  | inicio => exact hinicio
  | ciudad => exact c.city_state.nulFree
  | id => exact c.device_id.nulFree
  | co2 => exact nulFree_unsigned _
  | _ => exact nulFree_fixed _ _

theorem mem_of_mem_intersperse {sep t : Bytes} {ts : List Bytes} (h : t ∈ ts.intersperse sep) :
    t = sep ∨ t ∈ ts := by
  induction ts with
  | nil => exact absurd h (by simp)
  | cons u ts ih =>
      cases ts with
      | nil => exact Or.inr (by simpa using h)
      | cons v ts =>
          rw [List.intersperse_cons_cons, List.mem_cons, List.mem_cons] at h
          rcases h with rfl | rfl | h
          · exact Or.inr List.mem_cons_self
          · exact Or.inl rfl
          · exact (ih h).imp_right (List.mem_cons_of_mem u)

/-- The text of a record holds no terminator. -/
theorem nulFree_json {c : Setting} (hinicio : NulFree c.inicio_str) (r : Record) :
    NulFree (r.json c) := by
  have hname : ∀ f : Field, NulFree f.name := by
    intro f
    cases f <;> decide
  have hmember : ∀ f, NulFree (r.member c f) := by
    intro f
    have hquote : NulFree (if f ∈ measures then [] else ascii "\"") := by
      split <;> decide
    have hopen : NulFree (ascii "\"") := by decide
    have hcolon : NulFree (ascii "\":") := by decide
    exact ((((hopen.append (hname f)).append hcolon).append hquote).append
      (nulFree_text hinicio r f)).append hquote
  have hall : NulFree ((r.fields.map (r.member c)).intersperse (ascii ",")).flatten := by
    intro b hb
    obtain ⟨t, ht, hbt⟩ := List.mem_flatten.mp hb
    rcases mem_of_mem_intersperse ht with rfl | ht
    · have hcomma : NulFree (ascii ",") := by decide
      exact hcomma b hbt
    · obtain ⟨f, -, rfl⟩ := List.mem_map.mp ht
      exact hmember f b hbt
  have hbraces : NulFree (ascii "\x7b") ∧ NulFree (ascii "\x7d") := by decide
  exact ((hbraces.1.append hall).append hbraces.2).take _

/-! ### The relation -/

/-- The machine's state without the database and the history. -/
def Task.bare (t : Task) : Task :=
  { t with db := .empty, history := [] }

/-- What the machine holds as the text of a document: a text that was taken for it, or the one
the database prints. -/
def Shows (takes : Bytes → Option Json) (text : Bytes) (v : Json) : Prop :=
  takes text = some v ∨ text = v.print

/-- Where a document comes from: it was there at the start, or it was taken for the text of a
record that was sent. -/
def Known (takes : Bytes → Option Json) (c : Setting) (docs : Store Bytes Json)
    (history : List Batch) (e : Bytes × Json) : Prop :=
  e ∈ docs.entries ∨
    ∃ b ∈ history, e.1 = b.record.tm.clave ∧ takes (b.record.json c) = some e.2

/-- The machine at the end of a run, from a database that holds the given documents. -/
def machine (c : Setting) (docs : Store Bytes Json) (start_us : Int) (ticks : List Tick) : Task :=
  (Task.start (docs.map Json.print) start_us).run c ticks

/-- **The relation.** The program is in the state `s`, and the machine has run over `ticks`. -/
structure Matched {σ : Type} (P : Privado) (db : σ → Store Bytes Json)
    (takes : Bytes → Option Json) (c : Setting) (docs : Store Bytes Json) (start_us : Int)
    (s : SensorLoop σ) (ticks : List Tick) : Prop where
  app : ∃ app, Serving P s.shim app ∧ (∀ e ∈ (db app.world).entries, isClave e.1 = true) ∧
    (machine c docs start_us ticks).db.Matches (Shows takes) (db app.world) ∧
    ∀ e ∈ (db app.world).entries, Known takes c docs (machine c docs start_us ticks).history e
  vars : s.vars = (machine c docs start_us ticks).bare
  samples : s.samples = ticks.filterMap Tick.read
  honest : HonestTrims (machine c docs start_us ticks).history

section Rounds

variable {σ : Type} {W : World σ} {P : Privado} {db : σ → Store Bytes Json}
  {takes : Bytes → Option Json} {B : I2c} {c : Setting} {s s' : SensorLoop σ} {t : Task}

theorem vars_eq_iff : s.vars = t.bare ↔ s.first_send = t.first_send ∧
    s.sample_count = t.sample_count ∧ s.sums = t.sums ∧ s.sum_co2 = t.sum_co2 ∧
    s.last_fecha_str = t.last_fecha_str ∧ s.next_refresh_us = t.next_refresh_us ∧
    s.avg_size = t.avg_size ∧ s.approx_count = t.approx_count := by
  simp [SensorLoop.vars, Task.bare]

/-! ### The sensors -/

/-- The outcome of `sensors_read` at the beginning of a round. -/
def SensorLoop.reading (B : I2c) (c : Setting) (s : SensorLoop σ) : Option SensorData :=
  if (sensors_read B c.arith (some s.data) s.transactions).1 = ESP_OK then
    some ((sensors_read B c.arith (some s.data) s.transactions).2.1.getD s.data)
  else none

/-- The beginning of a round is that of the machine. -/
theorem collect_matched (hvars : s.vars = t.bare) (tick : Tick)
    (hread : tick.read = s.reading B c) :
    (s.collect B c).vars = (t.collect c.arith tick).bare ∧
      (s.collect B c).samples = s.samples ++ (s.reading B c).toList := by
  rw [Task.collect, hread]
  rw [SensorLoop.collect, SensorLoop.reading]
  dsimp only
  split
  · simp only [Option.toList_some, and_true]
    obtain ⟨hfirst, hcount, hsums, hco2, hfecha, hnext, hsize, happrox⟩ := vars_eq_iff.mp hvars
    rw [vars_eq_iff]
    simp only [Task.sample, hfirst, hcount, hsums, hco2, hfecha, hnext, hsize, happrox, and_self]
  · simp only [Option.toList_none, List.append_nil, and_true]
    exact hvars

/-! ### The database -/

/-- The key of a record names its child of the root. -/
theorem path_put_eq (tm : Tm) :
    CStr.of (path_put tm.clave) = childPath historial_mediciones tm.clave := by
  have hroot : historial_mediciones.bytes = ascii "/historial_mediciones" := by decide
  have hslash : ascii "/historial_mediciones/" = ascii "/historial_mediciones" ++ ascii "/" := by
    decide
  rw [(keyFits tm).path, childPath, hroot, hslash, List.append_assoc]

/-- The record is that of the machine. -/
theorem record_eq (hvars : s.vars = t.bare) (now_epoch : Int64) :
    s.record c now_epoch = t.record c now_epoch := by
  rw [SensorLoop.record, hvars]
  rfl

/-- What a put leaves is what the machine has for some fates of its attempts. -/
theorem put_matched {now_epoch : Int64} {docs docs' : Store Bytes Json}
    (hmatch : t.db.Matches (Shows takes) docs)
    (hput : docs' = docs ∨ docs' = putText takes docs (t.record c now_epoch).tm.clave
      ((t.record c now_epoch).json c)) :
    ∃ put : List Fate, ∀ tick : Tick, tick.put = put → tick.now_epoch = now_epoch →
      (t.dbAfterPut c tick).Matches (Shows takes) docs' := by
  have hsame : docs' = docs → ∃ put : List Fate, ∀ tick : Tick, tick.put = put →
      tick.now_epoch = now_epoch → (t.dbAfterPut c tick).Matches (Shows takes) docs' := by
    rintro rfl
    refine ⟨[], fun tick hnone _ => ?_⟩
    rwa [Task.dbAfterPut, hnone, List.any_nil, if_neg (by simp)]
  rcases hput with hold | hnew
  · exact hsame hold
  · cases htakes : takes ((t.record c now_epoch).json c) with
    | none => exact hsame (by rw [hnew, putText, htakes, Option.elim_none])
    | some v =>
        refine ⟨[.applied], fun tick hone hepoch => ?_⟩
        rw [Task.dbAfterPut, hone, hepoch, hnew, putText, htakes]
        exact hmatch.put (Or.inl htakes) _

theorem mem_putText {docs : Store Bytes Json} {key json : Bytes} {e : Bytes × Json}
    (he : e ∈ (putText takes docs key json).entries) :
    e ∈ docs.entries ∨ e.1 = key ∧ takes json = some e.2 := by
  cases htakes : takes json with
  | none =>
      rw [putText, htakes, Option.elim_none] at he
      exact Or.inl he
  | some v =>
      rw [putText, htakes, Option.elim_some] at he
      rcases mem_assocSet he with rfl | he
      · exact Or.inr ⟨rfl, rfl⟩
      · exact Or.inl he

theorem clave_of_put {docs : Store Bytes Json} (hkeys : ∀ e ∈ docs.entries, isClave e.1 = true)
    (tm : Tm) (json : Bytes) :
    ∀ e ∈ (putText takes docs tm.clave json).entries, isClave e.1 = true := by
  intro e he
  rcases mem_putText he with hold | ⟨hkey, -⟩
  · exact hkeys e hold
  · rw [hkey]
    exact isClave_clave tm

/-! ### A full batch -/

/-- The average size with this batch is that of the machine. -/
theorem nextSize_eq (hinicio : NulFree c.inicio_str) (hvars : s.vars = t.bare) (now_epoch : Int64) :
    s.nextSize c now_epoch
      = nextAvgSize c.arith t.avg_size ((t.record c now_epoch).json c).length := by
  obtain ⟨-, -, -, -, -, -, hsize, -⟩ := vars_eq_iff.mp hvars
  rw [SensorLoop.nextSize, record_eq hvars, hsize, cString_eq_self (nulFree_json hinicio _)]

/-- The variables after a batch are those of the machine, if the estimates are. -/
theorem sent_vars (hinicio : NulFree c.inicio_str) (hvars : s.vars = t.bare) {now_epoch : Int64}
    {tick : Tick} (hepoch : tick.now_epoch = now_epoch) {approx_count : ℕ} {shim : Shim σ}
    (happrox : approx_count = (t.send c tick).approx_count) :
    (s.sent c now_epoch approx_count shim).vars = (t.send c tick).bare := by
  obtain ⟨-, -, -, -, -, hnext, -, -⟩ := vars_eq_iff.mp hvars
  subst hepoch
  have hsize := nextSize_eq hinicio hvars tick.now_epoch
  have hfecha : s.vars.nextFecha (s.record c tick.now_epoch).tm.fecha
      = t.nextFecha (t.record c tick.now_epoch).tm.fecha := by
    rw [record_eq hvars, hvars]
    rfl
  exact vars_eq_iff.mpr ⟨rfl, rfl, rfl, rfl, hfecha, hnext, hsize, happrox⟩

/-- **A full batch is one of the machine**, for some fates of the put and some outcome of the
trim. -/
theorem send_matched (hW : W.ClosesFailed) (hlegal : W.Legal)
    (hB : Backend W P db historial_mediciones takes) (hinicio : NulFree c.inicio_str) {app : App σ}
    (hserve : Serving P s.shim app) (hkeys : ∀ e ∈ (db app.world).entries, isClave e.1 = true)
    (hvars : s.vars = t.bare) (hmatch : t.db.Matches (Shows takes) (db app.world))
    {now_epoch : Int64} (hsend : s.send W c now_epoch = some s') :
    ∃ (put : List Fate) (trim : Trim) (app' : App σ), Serving P s'.shim app' ∧
      (∀ e ∈ (db app'.world).entries, isClave e.1 = true) ∧
      (∀ e ∈ (db app'.world).entries, e ∈ (db app.world).entries ∨
        e.1 = (t.record c now_epoch).tm.clave ∧
          takes ((t.record c now_epoch).json c) = some e.2) ∧
      ∀ tick : Tick, tick.put = put → tick.trim = trim → tick.now_epoch = now_epoch →
        s'.vars = (t.send c tick).bare ∧
        (t.send c tick).db.Matches (Shows takes) (db app'.world) ∧
        HonestTrims [t.batch c tick] := by
  obtain ⟨r, mid, approx_count, shim, hput, hretain, rfl⟩ := send_eq_some hsend
  rw [record_eq hvars, path_put_eq] at hput
  obtain ⟨app₁, hserve₁, hdocs, -⟩ := putData_serves hW hB hserve (isClave_clave _) hput
  have hjson : (CStr.of ((t.record c now_epoch).json c)).bytes = (t.record c now_epoch).json c :=
    cString_eq_self (nulFree_json hinicio _)
  rw [hjson] at hdocs
  have hkeys₁ : ∀ e ∈ (db app₁.world).entries, isClave e.1 = true := by
    rcases hdocs with hdocs | hdocs <;> rw [hdocs]
    · exact hkeys
    · exact clave_of_put hkeys _ _
  have horigin₁ : ∀ e ∈ (db app₁.world).entries, e ∈ (db app.world).entries ∨
      e.1 = (t.record c now_epoch).tm.clave ∧ takes ((t.record c now_epoch).json c) = some e.2 := by
    intro e he
    rcases hdocs with hdocs | hdocs <;> rw [hdocs] at he
    · exact Or.inl he
    · exact mem_putText he
  obtain ⟨put, hmatch₁⟩ := put_matched hmatch hdocs
  obtain ⟨-, -, -, -, -, -, -, hcount⟩ := vars_eq_iff.mp hvars
  rw [nextSize_eq hinicio hvars, hcount] at hretain
  rcases retain_eq_some hretain with ⟨hbelow, rfl, rfl⟩ | ⟨deleted, habove, htrim, rfl⟩
  · refine ⟨put, ⟨0, 0⟩, app₁, hserve₁, hkeys₁, horigin₁, fun tick hfates _ hepoch => ?_⟩
    have hnone : (t.batch c tick).trim = none := by
      subst hepoch
      rw [trim_batch, if_neg]
      exact Nat.not_lt.mpr hbelow
    refine ⟨sent_vars hinicio hvars hepoch ?_, ?_, ?_⟩
    · rw [approx_send, Batch.estimate, hnone]
    · have hdb : (t.send c tick).db = t.dbAfterPut c tick := by simp [Task.send, hnone]
      rw [hdb]
      exact hmatch₁ tick hfates hepoch
    · intro b hb trim hsome
      obtain rfl := List.mem_singleton.mp hb
      exact absurd hsome (by simp [hnone])
  · obtain ⟨app₂, hserve₂, htrimmed⟩ := trim_serves hW hlegal hB hserve₁ hkeys₁ htrim
    obtain ⟨trim, rfl, hgone, hhonest⟩ := htrimmed.exists_trim
    have hsub : ∀ e ∈ (db app₂.world).entries, e ∈ (db app₁.world).entries := by
      rw [hgone]
      exact fun e he => List.mem_of_mem_drop he
    refine ⟨put, trim, app₂, hserve₂, fun e he => hkeys₁ e (hsub e he),
      fun e he => horigin₁ e (hsub e he), fun tick hfates houtcome hepoch => ?_⟩
    have hsome : (t.batch c tick).trim = some trim := by
      subst hepoch
      rw [trim_batch, if_pos, houtcome]
      exact habove
    refine ⟨sent_vars hinicio hvars hepoch ?_, ?_, ?_⟩
    · rw [approx_send, Batch.estimate, hsome]
    · have hdb : (t.send c tick).db = (t.dbAfterPut c tick).dropFirst trim.removed := by
        simp [Task.send, hsome]
      rw [hdb, hgone]
      exact (hmatch₁ tick hfates hepoch).dropFirst _
    · intro b hb trim' htrim'
      obtain rfl := List.mem_singleton.mp hb
      obtain rfl := Option.some.inj (hsome.symm.trans htrim')
      have hstored : (t.batch c tick).stored = (db app₁.world).size :=
        (hmatch₁ tick hfates hepoch).size
      rw [hstored]
      exact hhonest

/-! ### The end of a round -/

/-- The end of a round is that of the machine, and leaves the database alone. -/
theorem refresh_matched (hW : W.ClosesFailed) (hB : Backend W P db historial_mediciones takes)
    {app : App σ} (hserve : Serving P s.shim app) (hvars : s.vars = t.bare) {now_us : Int}
    (hrefresh : s.refresh W now_us = some s') :
    ∃ app', Serving P s'.shim app' ∧ db app'.world = db app.world ∧ s'.samples = s.samples ∧
      ∀ tick : Tick, tick.now_us = now_us → s'.vars = (t.timer tick).bare := by
  obtain ⟨hfirst, hcount, hsums, hco2, hfecha, hnext, hsize, happrox⟩ := vars_eq_iff.mp hvars
  rcases refresh_eq_some hrefresh with ⟨hearly, rfl⟩ | ⟨r, shim, hlate, hcall, rfl⟩
  · refine ⟨app, hserve, rfl, rfl, ?_⟩
    rintro tick rfl
    rw [Task.timer, if_neg (by omega)]
    exact hvars
  · obtain ⟨app', hserve', hsame⟩ := refresh_serves hW hB hserve hcall
    refine ⟨app', hserve', hsame, rfl, ?_⟩
    rintro tick rfl
    rw [Task.timer, if_pos (by omega)]
    exact vars_eq_iff.mpr ⟨hfirst, hcount, hsums, hco2, hfecha, rfl, hsize, happrox⟩

/-- The tick of a round shows the clocks of the round, and what it reads comes from the bus. -/
structure OnClock (B : I2c) (c : Setting) (clock : Clock) (tick : Tick) : Prop where
  now_epoch : tick.now_epoch = clock.now_epoch
  now_us : tick.now_us = clock.now_us
  read : ∀ d, tick.read = some d →
    ∃ out k k', sensors_read B c.arith out k = (ESP_OK, some d, k')

theorem reading_eq_some {d : SensorData} (h : s.reading B c = some d) :
    ∃ out k k', sensors_read B c.arith out k = (ESP_OK, some d, k') := by
  rw [SensorLoop.reading] at h
  split at h
  · rename_i hok
    refine ⟨some s.data, s.transactions, (sensors_read B c.arith (some s.data) s.transactions).2.2,
      Prod.ext hok (Prod.ext ?_ rfl)⟩
    rw [sensors_read] at h ⊢
    dsimp only at h ⊢
    split at h <;> exact h
  · exact absurd h (by simp)

/-- **One round of the program is one round of the machine.** -/
theorem Matched.round (hW : W.ClosesFailed) (hlegal : W.Legal)
    (hB : Backend W P db historial_mediciones takes) (hinicio : NulFree c.inicio_str)
    {docs : Store Bytes Json} {start_us : Int} {ticks : List Tick}
    (h : Matched P db takes c docs start_us s ticks) {clock : Clock}
    (hround : s.round W B c clock = some s') :
    ∃ tick, OnClock B c clock tick ∧ Matched P db takes c docs start_us s' (ticks ++ [tick]) := by
  obtain ⟨app, hserve, hkeys, hmatch, hknown⟩ := h.app
  have hvars := h.vars
  have hhonest := h.honest
  have hsamples := h.samples
  generalize ht : machine c docs start_us ticks = t at hmatch hvars hhonest hknown
  -- a tick that reads what the round reads; the rest of it is still open
  set reads : Tick := ⟨s.reading B c, clock.now_epoch, [], ⟨0, 0⟩, clock.now_us⟩ with hreads
  obtain ⟨hcollect, hsampled⟩ := collect_matched hvars reads rfl
  obtain ⟨hshim, -, -⟩ := collect_frame (B := B) (c := c) s
  have hquiet := t.collect_quiet reads c.arith
  obtain ⟨mid, hrefresh, hmid⟩ := round_eq_some hround
  have hcount : (s.collect B c).sample_count = (t.collect c.arith reads).sample_count :=
    congrArg Task.sample_count hcollect
  rw [← hshim] at hserve
  rw [← hquiet.db] at hmatch
  rw [← hquiet.history] at hhonest hknown
  -- the round from its tick, the state in the middle and what is found there
  have hend : ∀ (tick : Tick) {app₁ : App σ}, tick.read = s.reading B c →
      tick.now_epoch = clock.now_epoch → tick.now_us = clock.now_us → Serving P mid.shim app₁ →
      (∀ e ∈ (db app₁.world).entries, isClave e.1 = true) → mid.samples = (s.collect B c).samples →
      ∀ (t₁ : Task), t.step c tick = t₁.timer tick → mid.vars = t₁.bare →
      t₁.db.Matches (Shows takes) (db app₁.world) → HonestTrims t₁.history →
      (∀ e ∈ (db app₁.world).entries, Known takes c docs t₁.history e) →
      ∃ tick, OnClock B c clock tick ∧
        Matched P db takes c docs start_us s' (ticks ++ [tick]) := by
    intro tick app₁ hread hepoch hus hserve₁ hkeys₁ hsame t₁ hstep hvars₁ hmatch₁ hhonest₁ hknown₁
    obtain ⟨app₂, hserve₂, hdocs, hsame₂, htimer⟩ := refresh_matched hW hB hserve₁ hvars₁ hrefresh
    have hrun : machine c docs start_us (ticks ++ [tick]) = t₁.timer tick := by
      rw [machine, Task.run_snoc, ← machine, ht, hstep]
    have hbut := t₁.timer_same tick
    refine ⟨tick, ⟨hepoch, hus, fun d hd => reading_eq_some (hread ▸ hd)⟩, ?_, ?_, ?_, ?_⟩
    · refine ⟨app₂, hserve₂, by rwa [hdocs], ?_, ?_⟩
      · rwa [hrun, hbut.db, hdocs]
      · rwa [hrun, hbut.history, hdocs]
    · rw [hrun]
      exact htimer tick hus
    · rw [hsame₂, hsame, hsampled, hsamples, List.filterMap_append]
      simp only [List.filterMap_cons, List.filterMap_nil, hread]
      cases s.reading B c <;> rfl
    · rwa [hrun, hbut.history]
  rcases hmid with ⟨hfew, rfl⟩ | ⟨hfull, hsend⟩
  · refine hend reads rfl rfl rfl hserve hkeys rfl (t.collect c.arith reads) ?_
      hcollect hmatch hhonest hknown
    rw [Task.step]
    simp only [← hcount, Nat.not_le.mpr hfew, if_false]
  · obtain ⟨put, trim, app₁, hserve₁, hkeys₁, horigin₁, hbatch⟩ :=
      send_matched hW hlegal hB hinicio hserve hkeys hcollect hmatch hsend
    set tick : Tick := ⟨s.reading B c, clock.now_epoch, put, trim, clock.now_us⟩ with htick
    obtain ⟨hvars₁, hmatch₁, hhonest₁⟩ := hbatch tick rfl rfl rfl
    have hsame : t.collect c.arith tick = t.collect c.arith reads := rfl
    refine hend tick rfl rfl rfl hserve₁ hkeys₁ ?_
      ((t.collect c.arith reads).send c tick) ?_ hvars₁ hmatch₁ ?_ ?_
    · obtain ⟨r, shim₁, approx_count, shim₂, -, -, rfl⟩ := send_eq_some hsend
      rfl
    · rw [Task.step]
      simp only [hsame, ← hcount, hfull, if_true]
    · rw [history_send]
      intro b hb
      rcases List.mem_append.mp hb with hold | hnew
      · exact hhonest b hold
      · exact hhonest₁ b hnew
    · rw [history_send]
      intro e he
      rcases horigin₁ e he with hold | ⟨hkey, htakes⟩
      · rcases hknown e hold with hstart | ⟨b, hb, hfrom⟩
        · exact Or.inl hstart
        · exact Or.inr ⟨b, List.mem_append_left _ hb, hfrom⟩
      · exact Or.inr ⟨_, List.mem_append_right _ List.mem_cons_self, hkey, htakes⟩

end Rounds

/-! ### A station that sends one record -/

/-- The SCD4x answers with 400 ppm and the SEN5x with zeros, in every round. -/
def stationAir : I2c where
  transmit _ _ _ := ESP_OK
  receive k device :=
    match device with
    | .scd4x => (ESP_OK, fun i => if i = 0 then 1 else if i = 1 then 144 else 0)
    | .sen5x => zeroedScd4x.receive (k % 6) .sen5x

theorem quietStation_inicio : quietStation.inicio_str = inicio_str 1758000000 := rfl

theorem isRawString_nil : isRawString [] = true := rfl

/-- A text as a string, if it is one. -/
def rawString (text : String) : StringText :=
  if h : isRawString (ascii text) = true then ⟨ascii text, h⟩ else ⟨[], isRawString_nil⟩

/-- The document that the station's first record is the text of. -/
def stationDocument : Json :=
  .object [(rawString "pm1p0", .number (fixedText 2 0)),
    (rawString "pm2p5", .number (fixedText 2 0)),
    (rawString "pm4p0", .number (fixedText 2 0)),
    (rawString "pm10p0", .number (fixedText 2 0)),
    (rawString "voc", .number (fixedText 1 0)),
    (rawString "nox", .number (fixedText 1 0)),
    (rawString "cTe", .number (fixedText 2 (-45 / 2))),
    (rawString "cHu", .number (fixedText 2 0)),
    (rawString "co2", .number (natText 400)),
    (rawString "fecha", .string (rawString "15-09-2025")),
    (rawString "inicio", .string (rawString "23:20:00")),
    (rawString "ciudad", .string (rawString "Puebla-Mexico")),
    (rawString "hora", .string (rawString "23:45:00")),
    (rawString "id", .string (rawString "AMB-01"))]

/-- The database takes this text, and no other. -/
def stationTakes (text : Bytes) : Option Json :=
  if text = stationDocument.print then some stationDocument else none

/-- Five rounds, one minute apart. -/
def stationClocks : List Clock :=
  (List.range 5).map fun i => ⟨1758001260 + 60 * Int64.ofNat i, 60000000 * (i + 1)⟩

/-- The rounds on a database that held two records. -/
def stationRun : Option (TaskState (Store Bytes Json)) :=
  sensor_task (stationServer stationTakes) somePrivado stationAir quietStation
    (zeroed HTTP_RECV_BUFFER_SIZE) (quietSample 144) 0 (Shim.start twoRecords) stationClocks

theorem stationRun_looping : ∃ s, stationRun = some (.looping s) ∧
    (s.shim.g_app.map fun app => app.world.size) = some 1 := by
  obtain ⟨s, hrun, hone⟩ : ∃ s, stationRun = some (.looping s) ∧
      decide ((s.shim.g_app.map fun app => app.world.size) = some 1) = true :=
    exists_looping (by decide +kernel)
  exact ⟨s, hrun, of_decide_eq_true hone⟩

/-! ### Whole runs -/

section Runs

variable {σ : Type} {W : World σ} {P : Privado} {db : σ → Store Bytes Json}
  {takes : Bytes → Option Json} {B : I2c} {c : Setting}

/-- The loop is entered in a state that matches the start of the machine. -/
theorem matched_start (hW : W.ClosesFailed) (hB : Backend W P db historial_mediciones takes)
    {buf : Bytes} (hbuf : buf.length = HTTP_RECV_BUFFER_SIZE) {data : SensorData} {start_us : Int}
    {w : σ} (hkeys : ∀ e ∈ (db w).entries, isClave e.1 = true) {s₀ : SensorLoop σ}
    (hstart : sensor_task_start W P buf data start_us (Shim.start w) = some (.looping s₀)) :
    ∃ docs, (docs = db w ∨ docs = .empty) ∧ Matched P db takes c docs start_us s₀ [] := by
  obtain ⟨shim₁, r, shim₂, hinit, hdelete, rfl⟩ := start_eq_looping hstart
  obtain ⟨app₁, hserve₁, hsame⟩ := init_serves hW hB hbuf hinit
  obtain ⟨app₂, hserve₂, hdocs, -⟩ := delete_serves hW hB hserve₁ hdelete
  rw [hsame] at hdocs
  have hempty : ∀ b : Batch, b ∉ (machine c (db app₂.world) start_us []).history := by
    intro b hb
    exact absurd hb (by simp [machine, Task.run, Task.start])
  refine ⟨db app₂.world, hdocs, ⟨app₂, hserve₂, ?_, matches_map (R := Shows takes)
    (fun v => Or.inr rfl) _, fun e he => Or.inl he⟩, rfl, rfl, fun b hb => absurd hb (hempty b)⟩
  rcases hdocs with hdocs | hdocs <;> rw [hdocs]
  · exact hkeys
  · exact fun e he => absurd he (by simp [Store.empty])

/-- **The rounds.** Matching is kept from round to round, with one tick for each clock. -/
theorem Matched.run (hW : W.ClosesFailed) (hlegal : W.Legal)
    (hB : Backend W P db historial_mediciones takes) (hnul : NulFree c.inicio_str)
    {docs : Store Bytes Json} {start_us : Int} {s₀ s : SensorLoop σ} {clocks : List Clock}
    (h : Matched P db takes c docs start_us s₀ []) (hrun : s₀.run W B c clocks = some s) :
    ∃ ticks, List.Forall₂ (OnClock B c) clocks ticks ∧
      Matched P db takes c docs start_us s ticks :=
  foldlM_simulation (L := OnClock B c) (R := Matched P db takes c docs start_us)
    (fun _ _ _ _ hs hround => hs.round hW hlegal hB hnul hround) h hrun

/-- **The program refines the machine of the records.** Whatever the bus does and whatever becomes
of the requests, on a network that closes the connection of an attempt that fails: a run of the
program is matched by a run of the machine over ticks with the same clocks, from the documents
that the initial deletion has left. -/
theorem sensor_task_refines (hW : W.ClosesFailed) (hlegal : W.Legal)
    (hB : Backend W P db historial_mediciones takes) {start_epoch : Int64}
    (hinicio : c.inicio_str = inicio_str start_epoch) {buf : Bytes}
    (hbuf : buf.length = HTTP_RECV_BUFFER_SIZE) {data : SensorData} {start_us : Int} {w : σ}
    (hkeys : ∀ e ∈ (db w).entries, isClave e.1 = true) {s : SensorLoop σ} {clocks : List Clock}
    (h : sensor_task W P B c buf data start_us (Shim.start w) clocks = some (.looping s)) :
    ∃ docs ticks, (docs = db w ∨ docs = .empty) ∧ List.Forall₂ (OnClock B c) clocks ticks ∧
      Matched P db takes c docs start_us s ticks := by
  obtain ⟨s₀, hstart, hrun⟩ := sensor_task_eq_looping h
  obtain ⟨docs, hdocs, hentered⟩ := matched_start (c := c) hW hB hbuf hkeys hstart
  obtain ⟨ticks, hclocks, hmatched⟩ :=
    hentered.run hW hlegal hB (hinicio ▸ nulFree_hora _) hrun
  exact ⟨docs, ticks, hdocs, hclocks, hmatched⟩

theorem sensor_task_refines_station : ∃ s docs ticks, stationRun = some (.looping s) ∧
    List.Forall₂ (OnClock stationAir quietStation) stationClocks ticks ∧
    Matched somePrivado id stationTakes quietStation docs 0 s ticks := by
  obtain ⟨s, hrun, -⟩ := stationRun_looping
  obtain ⟨docs, ticks, -, hclocks, hmatched⟩ :=
    sensor_task_refines (stationServer_closesFailed _) (stationServer_legal _)
      (stationServer_backend _) quietStation_inicio (length_zeroed _)
      (by decide +kernel) hrun
  exact ⟨s, docs, ticks, hrun, hclocks, hmatched⟩

/-- The samples of a record stand next to each other. -/
theorem infix_of_mem_chunks {chunks : List (List SensorData)} {samples pending : List SensorData}
    (h : samples ∈ chunks) : samples <:+: chunks.flatten ++ pending := by
  obtain ⟨before, after, rfl⟩ := List.append_of_mem h
  refine ⟨before.flatten, after.flatten ++ pending, ?_⟩
  rw [List.flatten_append, List.flatten_cons, List.append_assoc, List.append_assoc,
    List.append_assoc]

/-- **What is stored is right.** On such a network, with exact arithmetic and short plain labels of
the station: a document that is there at the end was there before the program, or its key is the
time of a round, and it was taken for the text of a record that means the averages of five samples
read one after the other. -/
theorem stored_right (hW : W.ClosesFailed) (hlegal : W.Legal)
    (hB : Backend W P db historial_mediciones takes) (hexact : c.arith = .exact) (hc : c.Labeled)
    {start_epoch : Int64} (hinicio : c.inicio_str = inicio_str start_epoch) {buf : Bytes}
    (hbuf : buf.length = HTTP_RECV_BUFFER_SIZE) {data : SensorData} {start_us : Int} {w : σ}
    (hkeys : ∀ e ∈ (db w).entries, isClave e.1 = true) {s : SensorLoop σ} {clocks : List Clock}
    (hyear : ∀ clock ∈ clocks, 0 ≤ (localtime_r UTC6 clock.now_epoch.toInt).year ∧
      (localtime_r UTC6 clock.now_epoch.toInt).year ≤ 9999)
    (h : sensor_task W P B c buf data start_us (Shim.start w) clocks = some (.looping s)) :
    ∃ app, s.shim.g_app = some app ∧ ∀ e ∈ (db app.world).entries, e ∈ (db w).entries ∨
      ∃ (r : Record) (samples : List SensorData),
        (∃ clock ∈ clocks, r.tm = localtime_r UTC6 clock.now_epoch.toInt) ∧ e.1 = r.tm.clave ∧
          takes (r.json c) = some e.2 ∧ samples.length = 5 ∧ samples <:+: s.samples ∧
          r.Right IntegerPart c samples := by
  obtain ⟨s₀, hstart, hrun⟩ := sensor_task_eq_looping h
  obtain ⟨docs, hdocs, hentered⟩ := matched_start (c := c) hW hB hbuf hkeys hstart
  obtain ⟨ticks, hclocks, hmatched⟩ :=
    hentered.run hW hlegal hB (hinicio ▸ nulFree_hora _) hrun
  obtain ⟨app, hserve, -, -, hknown⟩ := hmatched.app
  refine ⟨app, hserve.holds, fun e he => ?_⟩
  rcases hknown e he with hold | ⟨b, hb, hkey, htakes⟩
  · rcases hdocs with rfl | rfl
    · exact Or.inl hold
    · exact absurd hold (by simp [Store.empty])
  · -- the batch is made of a chunk of the samples that the machine has read
    obtain ⟨chunks, pending, hsampled⟩ :=
      sampled_run hexact (docs.map Json.print) start_us ticks
    obtain ⟨samples, hmem, havg⟩ := exists_left_of_forall₂ hsampled.sent hb
    obtain ⟨tick, htick, htm⟩ := batch_times c _ start_us ticks b hb
    obtain ⟨clock, hclock, hon⟩ := exists_left_of_forall₂ hclocks htick
    rw [hon.now_epoch] at htm
    have hinfix : samples <:+: s.samples := by
      rw [hmatched.samples, hsampled.split]
      exact infix_of_mem_chunks hmem
    have hproduced : ∀ d ∈ samples, Produced d := by
      intro d hd
      have hread := hinfix.subset hd
      rw [hmatched.samples, List.mem_filterMap] at hread
      obtain ⟨tick', htick', hread⟩ := hread
      obtain ⟨clock', -, hon'⟩ := exists_left_of_forall₂ hclocks htick'
      obtain ⟨out, k, k', hbus⟩ := hon'.read d hread
      exact ⟨B, out, k, k', hexact ▸ hbus⟩
    have hfive := hsampled.five samples hmem
    have hbounded := averages_bounded (List.ne_nil_of_length_eq_add_one hfive) havg
      fun d hd => produced_bounded (hproduced d hd)
    obtain ⟨hlow, hhigh⟩ := hyear clock hclock
    rw [← htm] at hlow hhigh
    exact Or.inr ⟨b.record, samples, ⟨clock, hclock, htm⟩, hkey, htakes, hfive, hinfix,
      right_of_averages hc hinicio havg hbounded hlow hhigh⟩

theorem stored_right_station : ∃ s app, stationRun = some (.looping s) ∧
    s.shim.g_app = some app ∧ app.world.size = 1 ∧
    ∀ e ∈ app.world.entries, e ∈ twoRecords.entries ∨ ∃ (r : Record) (samples : List SensorData),
      (∃ clock ∈ stationClocks, r.tm = localtime_r UTC6 clock.now_epoch.toInt) ∧
        e.1 = r.tm.clave ∧ stationTakes (r.json quietStation) = some e.2 ∧ samples.length = 5 ∧
        samples <:+: s.samples ∧ r.Right IntegerPart quietStation samples := by
  obtain ⟨s, hrun, hone⟩ := stationRun_looping
  obtain ⟨app, happ, hright⟩ :=
    stored_right (stationServer_closesFailed _) (stationServer_legal _) (stationServer_backend _)
      rfl quietStation_labeled quietStation_inicio (length_zeroed _)
      (by decide +kernel) (by decide +kernel) hrun
  rw [happ, Option.map_some, Option.some.injEq] at hone
  exact ⟨s, app, hrun, happ, hone, hright⟩

/-- A round sends at most one batch. -/
theorem length_history_le (c : Setting) (d : Store Bytes Bytes) (now_us : Int) (ticks : List Tick) :
    ((Task.start d now_us).run c ticks).history.length ≤ ticks.length := by
  induction ticks using List.reverseRecOn with
  | nil => exact le_rfl
  | append_singleton ticks t ih =>
      rw [Task.run_snoc, List.length_append, List.length_singleton]
      rcases ((Task.start d now_us).run c ticks).step_cases c t with hquiet | ⟨s₁, hquiet, hsend⟩
      · rw [hquiet.history]
        omega
      · rw [hsend.history, history_send, List.length_append, List.length_singleton, hquiet.history]
        omega

/-- **The estimate bounds what is stored.** On such a network, at the end of every run of fewer
than `2 ^ 32` rounds: the program's estimate of the records is at least the number that the run
has left in the database. -/
theorem stored_le_estimate (hW : W.ClosesFailed) (hlegal : W.Legal)
    (hB : Backend W P db historial_mediciones takes) {start_epoch : Int64}
    (hinicio : c.inicio_str = inicio_str start_epoch) {buf : Bytes}
    (hbuf : buf.length = HTTP_RECV_BUFFER_SIZE) {data : SensorData} {start_us : Int} {w : σ}
    (hkeys : ∀ e ∈ (db w).entries, isClave e.1 = true) {s : SensorLoop σ} {clocks : List Clock}
    (hlen : clocks.length < 2 ^ 32)
    (h : sensor_task W P B c buf data start_us (Shim.start w) clocks = some (.looping s)) :
    ∃ app, s.shim.g_app = some app ∧ (db app.world).size ≤ s.approx_count + (db w).size := by
  obtain ⟨s₀, hstart, hrun⟩ := sensor_task_eq_looping h
  obtain ⟨docs, hdocs, hentered⟩ := matched_start (c := c) hW hB hbuf hkeys hstart
  obtain ⟨ticks, hclocks, hmatched⟩ :=
    hentered.run hW hlegal hB (hinicio ▸ nulFree_hora _) hrun
  obtain ⟨app, hserve, -, hmatch, -⟩ := hmatched.app
  refine ⟨app, hserve.holds, ?_⟩
  have hempty : Estimated (docs.map Json.print).size 0 (docs.map Json.print).size [] :=
    ⟨le_rfl, fun _ => by omega, fun _ => Nat.zero_le _⟩
  have hestimated := retention_rule c (docs.map Json.print) start_us
    (P := fun approx_count stored history => history.length < 2 ^ 32 →
      Estimated (docs.map Json.print).size approx_count stored history)
    (fun _ => hempty) (fun t tick ih hless => by
      rw [List.length_append, List.length_singleton] at hless
      exact (ih (by omega)).batch hless tick) ticks
  have hfew : (machine c docs start_us ticks).history.length < 2 ^ 32 :=
    (length_history_le c _ start_us ticks).trans_lt (hclocks.length_eq ▸ hlen)
  have hbound := (hestimated hfew).enough hmatched.honest
  obtain ⟨-, -, -, -, -, -, -, happrox⟩ := vars_eq_iff.mp hmatched.vars
  have hleft : (docs.map Json.print).size ≤ (db w).size := by
    rw [Store.size, Store.map, List.length_map]
    rcases hdocs with rfl | rfl
    · exact le_rfl
    · exact Nat.zero_le _
  rw [happrox, ← hmatch.size]
  exact hbound.trans (Nat.add_le_add_left hleft _)

theorem stored_le_estimate_station : ∃ s app, stationRun = some (.looping s) ∧
    s.shim.g_app = some app ∧ app.world.size ≤ s.approx_count + 2 := by
  obtain ⟨s, hrun, -⟩ := stationRun_looping
  obtain ⟨app, happ, hbound⟩ :=
    stored_le_estimate (stationServer_closesFailed _) (stationServer_legal _)
      (stationServer_backend _) quietStation_inicio (length_zeroed _)
      (by decide +kernel) (by decide) hrun
  exact ⟨s, app, hrun, happ, hbound⟩

end Runs

end PppAmb
