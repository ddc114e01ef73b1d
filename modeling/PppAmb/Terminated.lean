import PppAmb.TokenInUse

/-!
# The Array Read as a C String

`local_response_buffer` is read as a C string in two places: the log of a failed attempt, and
the `strlen` before a 200 answer is parsed. The constructor leaves the array as it was
allocated; only a new connection, received bytes and `clearHTTPBuffer` put a NUL into it.

A run is a list of `AppOp`: the primitive actions the callers in `app.cpp` and `rtdb.cpp` are
made of. `AuthCall.performed` and `DbOp.performed` say that they are made of nothing else.

## Main results

* `Recv.Sound.mem_foldl_iff`: what puts a NUL into the array.
* `Recv.Sound.writtenBy_lt`: the handler writes inside the array.
* `reads_terminated_iff`: in every run from the construction of the app, every read finds a
  NUL exactly when each attempt that is read starts with one or brings one.
* `fresh_array_logged`: a first attempt that fails before it is connected logs the array as it
  was allocated.
-/

namespace PppAmb

/-! ### What the handler writes -/

/-- The array has its size and the counter leaves room for the terminator; once bytes have
been collected there is a NUL. -/
structure Recv.Sound (r : Recv) : Prop where
  size : r.local_response_buffer.length = HTTP_RECV_BUFFER_SIZE
  room : r.output_len < HTTP_RECV_BUFFER_SIZE
  terminated : 0 < r.output_len → 0 ∈ r.local_response_buffer

/-- The indices the handler writes to: the whole array for a new connection, and the bytes
with the terminator behind them for a chunk. -/
def writtenBy (r : Recv) : HttpEvent → List ℕ
  | .onConnected => List.range HTTP_RECV_BUFFER_SIZE
  | .onData data =>
      if data.length > 0 then
        let capacity := HTTP_RECV_BUFFER_SIZE - 1
        let space := capacity - r.output_len
        if space > 0 then
          let to_copy := if data.length < space then data.length else space
          List.range' r.output_len (to_copy + 1)
        else []
      else []
  | .error | .headerSent | .onHeader _ _ | .redirect | .onFinish | .disconnected => []

/-- The event puts a NUL into the array. -/
def HttpEvent.terminates : HttpEvent → Bool
  | .onConnected => true
  | .onData data => data.length > 0
  | .error | .headerSent | .onHeader _ _ | .redirect | .onFinish | .disconnected => false

/-- Every write of the events of an attempt lies inside the array. -/
def InsideArray : Recv → List HttpEvent → Prop
  | _, [] => True
  | r, e :: es =>
      (∀ i ∈ writtenBy r e, i < HTTP_RECV_BUFFER_SIZE) ∧ InsideArray (http_event_handler r e) es

theorem Recv.sound_cleared : Recv.cleared.Sound where
  size := length_zeroed _
  room := by simp [Recv.cleared, HTTP_RECV_BUFFER_SIZE]
  terminated := by simp [Recv.cleared]

theorem zero_mem_cleared : (0 : UInt8) ∈ Recv.cleared.local_response_buffer := by
  rw [Recv.cleared, zeroed, List.mem_replicate]
  exact ⟨by simp [HTTP_RECV_BUFFER_SIZE], rfl⟩

/-- The counter and the terminator after a chunk, in the cases the handler tells apart. -/
inductive ChunkResult (r : Recv) (data : Bytes) : Recv → List ℕ → Prop
  | skipped (hskip : data.length = 0 ∨ r.output_len = HTTP_RECV_BUFFER_SIZE - 1) :
      ChunkResult r data r []
  | copied {r' : Recv} {to_copy : ℕ} (hdata : 0 < data.length)
      (hroom : r.output_len + to_copy < HTTP_RECV_BUFFER_SIZE)
      (hlen : r'.output_len = r.output_len + to_copy)
      (hsize : r'.local_response_buffer.length = HTTP_RECV_BUFFER_SIZE)
      (hzero : 0 ∈ r'.local_response_buffer) :
      ChunkResult r data r' (List.range' r.output_len (to_copy + 1))

theorem Recv.Sound.chunk {r : Recv} (h : r.Sound) (data : Bytes) :
    ChunkResult r data (http_event_handler r (.onData data)) (writtenBy r (.onData data)) := by
  have hroom := h.room
  have hsize := length_http_event_handler h.size (.onData data)
  rw [http_event_handler] at hsize ⊢
  rw [writtenBy]
  by_cases hdata : data.length > 0
  · by_cases hspace : HTTP_RECV_BUFFER_SIZE - 1 - r.output_len > 0
    · simp only [if_pos hdata, if_pos hspace] at hsize ⊢
      generalize hcopy : (if data.length < HTTP_RECV_BUFFER_SIZE - 1 - r.output_len
        then data.length else HTTP_RECV_BUFFER_SIZE - 1 - r.output_len) = to_copy at hsize ⊢
      have hle : to_copy ≤ HTTP_RECV_BUFFER_SIZE - 1 - r.output_len := by
        split at hcopy <;> omega
      refine .copied hdata (by omega) rfl hsize ?_
      rw [List.length_set] at hsize
      exact List.mem_iff_getElem?.mpr ⟨_, List.getElem?_set_self (by omega)⟩
    · simp only [if_pos hdata, if_neg hspace]
      exact .skipped (Or.inr (by omega))
  · simp only [if_neg hdata]
    exact .skipped (Or.inl (by omega))

/-- The handler keeps the array sound. -/
theorem Recv.Sound.handler {r : Recv} (h : r.Sound) (e : HttpEvent) :
    (http_event_handler r e).Sound := by
  cases e with
  | onConnected => exact Recv.sound_cleared
  | onFinish => exact ⟨h.size, by simp [http_event_handler, HTTP_RECV_BUFFER_SIZE],
      by simp [http_event_handler]⟩
  | onData data =>
      have hchunk := h.chunk data
      generalize http_event_handler r (.onData data) = r' at hchunk ⊢
      generalize writtenBy r (.onData data) = indices at hchunk
      cases hchunk with
      | skipped _ => exact h
      | copied _ hroom hlen hsize hzero => exact ⟨hsize, hlen ▸ hroom, fun _ => hzero⟩
  | error | headerSent | onHeader _ _ | redirect | disconnected => exact h

theorem Recv.Sound.foldl {r : Recv} (h : r.Sound) (es : List HttpEvent) :
    (es.foldl http_event_handler r).Sound :=
  foldl_invariant (fun _ e hr => hr.handler e) es h

/-- **The writes of one event** lie inside the array. -/
theorem Recv.Sound.writtenBy_lt {r : Recv} (h : r.Sound) (e : HttpEvent) :
    ∀ i ∈ writtenBy r e, i < HTTP_RECV_BUFFER_SIZE := by
  cases e with
  | onConnected =>
      intro i hi
      exact List.mem_range.mp hi
  | onData data =>
      have hchunk := h.chunk data
      generalize http_event_handler r (.onData data) = r' at hchunk
      generalize writtenBy r (.onData data) = indices at hchunk ⊢
      cases hchunk with
      | skipped _ => simp
      | copied _ hroom _ _ _ =>
          intro i hi
          rw [List.mem_range'_1] at hi
          omega
  | error | headerSent | onHeader _ _ | redirect | onFinish | disconnected => simp [writtenBy]

theorem Recv.Sound.insideArray {r : Recv} (h : r.Sound) (es : List HttpEvent) :
    InsideArray r es := by
  induction es generalizing r with
  | nil => trivial
  | cons e es ih => exact ⟨h.writtenBy_lt e, ih (h.handler e)⟩

/-- One event. -/
theorem Recv.Sound.mem_handler_iff {r : Recv} (h : r.Sound) (e : HttpEvent) :
    0 ∈ (http_event_handler r e).local_response_buffer ↔
      0 ∈ r.local_response_buffer ∨ e.terminates = true := by
  cases e with
  | onConnected => exact iff_of_true zero_mem_cleared (Or.inr rfl)
  | onData data =>
      have hchunk := h.chunk data
      generalize http_event_handler r (.onData data) = r' at hchunk ⊢
      generalize writtenBy r (.onData data) = indices at hchunk
      cases hchunk with
      | skipped hskip =>
          constructor
          · exact Or.inl
          · rintro (hzero | hdata)
            · exact hzero
            · simp only [HttpEvent.terminates, decide_eq_true_eq] at hdata
              refine h.terminated ?_
              rcases hskip with hempty | hfull
              · omega
              · rw [hfull]
                simp [HTTP_RECV_BUFFER_SIZE]
      | copied hdata _ _ _ hzero =>
          exact iff_of_true hzero (Or.inr (by simpa [HttpEvent.terminates] using hdata))
  | error | headerSent | onHeader _ _ | redirect | onFinish | disconnected =>
      simp [http_event_handler, HttpEvent.terminates]

/-- **What puts a NUL into the array**: it is there before, or one of the events brings it. -/
theorem Recv.Sound.mem_foldl_iff {r : Recv} (h : r.Sound) (es : List HttpEvent) :
    0 ∈ (es.foldl http_event_handler r).local_response_buffer ↔
      0 ∈ r.local_response_buffer ∨ ∃ e ∈ es, e.terminates = true := by
  induction es generalizing r with
  | nil => simp
  | cons e es ih =>
      rw [List.foldl_cons, ih (h.handler e), h.mem_handler_iff e, or_assoc]
      simp

/-! ### Runs -/

section Runs

variable {σ : Type} (W : World σ)

/-- What the callers do with an app: a request, whose 200 answer is read or not, and the
members they set. -/
inductive AppOp
  | request (url : Bytes) (method : Method) (post_field : Bytes) (parsed : Bool)
  | clearHTTPBuffer
  | setHeader (header value : Bytes)
  | setHttpTimeoutMs (ms : Int)
  | setCredentials (credentials : Credentials)

/-- The state after it. -/
def AppOp.exec (s : App σ) : AppOp → App σ
  | .request url method post_field parsed =>
      let (ret, s) := performRequest W s url method post_field
      if parsed = true ∧ ret.is200 = true then s.readBuffer.2 else s
  | .clearHTTPBuffer => s.clearHTTPBuffer
  | .setHeader header value => s.setHeader header value
  | .setHttpTimeoutMs ms => s.setHttpTimeoutMs ms
  | .setCredentials credentials => { s with toCredentials := credentials }

/-- Every array read so far holds a NUL. -/
def App.ReadsTerminated (s : App σ) : Prop :=
  ∀ buf ∈ s.reads, 0 ∈ buf

/-- **Memory safety of one action**: every array read so far holds a NUL, and every byte the
handler writes lies inside the array. -/
def AppOp.Safe (s : App σ) (op : AppOp) : Prop :=
  (op.exec W s).ReadsTerminated ∧
    match op with
    | .request url method post_field _ =>
        ForAttempts W (fun c r a => c.handler = true → InsideArray r a.events) url method
          post_field 5 s
    | _ => True

/-- The attempt leaves a NUL in the array: it is there before, or the handler is installed
and the attempt connects or receives bytes. -/
def LeavesNul (c : Client) (r : Recv) (a : Attempt) : Prop :=
  0 ∈ r.local_response_buffer ∨ c.handler = true ∧ ∃ e ∈ a.events, e.terminates = true

/-- The attempt is read: it fails and is logged, or it is answered with 200 and parsed. -/
def Attempt.Read (parsed : Bool) (a : Attempt) : Prop :=
  a.succeeded = false ∨ parsed = true ∧ (HttpRet.mk a.err a.status_code).is200 = true

/-- The condition: every attempt that is read leaves a NUL in the array. -/
def AppOp.Terminates (s : App σ) : AppOp → Prop
  | .request url method post_field parsed =>
      ForAttempts W (fun c r a => a.Read parsed → LeavesNul c r a) url method post_field 5 s
  | _ => True

variable {W}

/-- The array after an attempt. -/
theorem mem_perform_iff {s : App σ} (h : s.recv.Sound) (c : Client) :
    0 ∈ (s.perform W c).2.recv.local_response_buffer ↔
      LeavesNul c s.recv (W.perform s.world c).1 := by
  have hrecv : (s.perform W c).2.recv = if c.handler then
      (W.perform s.world c).1.events.foldl http_event_handler s.recv else s.recv := rfl
  rw [hrecv, LeavesNul]
  cases hhandler : c.handler with
  | true => simpa using h.mem_foldl_iff _
  | false => simp

theorem sound_perform {s : App σ} (h : s.recv.Sound) (c : Client) :
    (s.perform W c).2.recv.Sound := by
  have hrecv : (s.perform W c).2.recv = if c.handler then
      (W.perform s.world c).1.events.foldl http_event_handler s.recv else s.recv := rfl
  rw [hrecv]
  split
  · exact h.foldl _
  · exact h

theorem reads_afterFailure (s : App σ) (method : Method) :
    (s.afterFailure W method).reads = s.reads ++ [s.recv.local_response_buffer] := by
  rw [App.afterFailure]
  dsimp only
  split <;> rfl

/-- What holds of every sound array holds of every attempt of a request. -/
theorem forAttempts_of_sound {P : Client → Recv → Attempt → Prop} (hP : ∀ c r a, r.Sound → P c r a)
    (url : Bytes) (method : Method) (post_field : Bytes) (n : ℕ) :
    ∀ {s : App σ}, s.recv.Sound → ForAttempts W P url method post_field n s := by
  induction n with
  | zero =>
      intro s _
      trivial
  | succ n ih =>
      intro s h
      rw [ForAttempts]
      split
      · trivial
      · rename_i c w _
        refine ⟨hP _ _ _ h, fun _ => ih ?_⟩
        rw [App.afterFailure_recv]
        exact sound_perform (s := { s with world := w }) h c

/-- **The reads of a request.** The arrays it logs, and the array it leaves for a 200 answer
that is parsed, hold a NUL exactly when each attempt that is read leaves one. -/
theorem requestLoop_reads (url : Bytes) (method : Method) (post_field : Bytes) (parsed : Bool)
    (n : ℕ) : ∀ (err : EspErr) (status : Int) {s : App σ}, s.recv.Sound →
      (HttpRet.mk err status).is200 = false →
      (requestLoop W url method post_field n err status s).2.recv.Sound ∧
        ((requestLoop W url method post_field n err status s).2.ReadsTerminated ∧
          (parsed = true ∧
              (requestLoop W url method post_field n err status s).1.is200 = true →
            0 ∈ (requestLoop W url method post_field n err status s).2.recv.local_response_buffer) ↔
        s.ReadsTerminated ∧ ForAttempts W (fun c r a => a.Read parsed → LeavesNul c r a) url
          method post_field n s) := by
  induction n with
  | zero =>
      intro err status s h hno
      refine ⟨h, ?_⟩
      simp [requestLoop, ForAttempts, hno]
  | succ n ih =>
      intro err status s h hno
      rw [requestLoop, ForAttempts]
      rcases hset : setUp W s.world s.client url method post_field with ⟨_ | c, w⟩
      · refine ⟨h, ?_⟩
        simp [hno, App.ReadsTerminated]
      · have hsound := sound_perform (W := W) (s := { s with world := w }) h c
        have hmem := mem_perform_iff (W := W) (s := { s with world := w }) h c
        have hperform : ({ s with world := w } : App σ).perform W c
            = ((W.perform w c).1, (({ s with world := w } : App σ).perform W c).2) := rfl
        have hreads : (({ s with world := w } : App σ).perform W c).2.reads = s.reads := rfl
        dsimp only at hmem ⊢
        rw [hperform]
        generalize (({ s with world := w } : App σ).perform W c).2 = s₁ at hsound hmem hreads ⊢
        cases hsucc : (W.perform w c).1.succeeded with
        | true =>
            simp only [if_true, Bool.true_eq_false, false_implies, and_true]
            refine ⟨hsound, ?_⟩
            have hclose : s₁.close.ReadsTerminated ↔ s.ReadsTerminated := by
              rw [App.ReadsTerminated, App.ReadsTerminated, ← hreads]
              rfl
            have hrecv : s₁.close.recv = s₁.recv := rfl
            rw [hclose, hrecv, hmem, Attempt.Read, hsucc]
            simp
        | false =>
            simp only [Bool.false_eq_true, if_false, forall_const]
            have hfail : (HttpRet.mk (W.perform w c).1.err (W.perform w c).1.status_code).is200
                = false := by
              by_contra h200
              have h2xx := HttpRet.is2xx_of_is200 (by simpa using h200)
              have : (W.perform w c).1.succeeded = true := h2xx
              simp [hsucc] at this
            obtain ⟨hsound', hiff⟩ := ih _ _ (s := s₁.afterFailure W method)
              (by rw [App.afterFailure_recv]; exact hsound) hfail
            refine ⟨hsound', hiff.trans ?_⟩
            have hlogged : (s₁.afterFailure W method).ReadsTerminated ↔
                s.ReadsTerminated ∧ LeavesNul c s.recv (W.perform w c).1 := by
              rw [App.ReadsTerminated, reads_afterFailure, hreads, App.ReadsTerminated, ← hmem]
              simp [or_imp, forall_and]
            rw [hlogged, and_assoc]
            simp [Attempt.Read, hsucc]

/-- One action of the callers. -/
theorem AppOp.safe_iff {s : App σ} (h : s.recv.Sound) (hreads : s.ReadsTerminated) (op : AppOp) :
    (op.exec W s).recv.Sound ∧ (op.Safe W s ↔ op.Terminates W s) := by
  cases op with
  | request url method post_field parsed =>
      obtain ⟨hsound, hiff⟩ := requestLoop_reads (W := W) url method post_field parsed 5
        ESP_FAIL (-1) h rfl
      have hinside := forAttempts_of_sound (W := W)
        (P := fun c r a => c.handler = true → InsideArray r a.events)
        (fun c r a hr _ => hr.insideArray a.events) url method post_field 5 h
      rw [AppOp.Safe, AppOp.Terminates, AppOp.exec]
      dsimp only
      rw [performRequest]
      generalize requestLoop W url method post_field 5 ESP_FAIL (-1) s = r at hsound hiff ⊢
      obtain ⟨ret, t⟩ := r
      simp only [hinside, and_true] at hiff ⊢
      rw [← and_iff_right (a := s.ReadsTerminated) (b := ForAttempts W _ url method post_field 5 s)
        hreads, ← hiff]
      split
      · rename_i hparse
        refine ⟨hsound, ?_⟩
        have hread : t.readBuffer.2.reads = t.reads ++ [t.recv.local_response_buffer] := rfl
        rw [App.ReadsTerminated, hread, App.ReadsTerminated]
        simp [or_imp, forall_and, hparse]
      · rename_i hparse
        refine ⟨hsound, ?_⟩
        simp [hparse]
  | clearHTTPBuffer => exact ⟨Recv.sound_cleared, iff_of_true ⟨hreads, trivial⟩ trivial⟩
  | setHeader _ _ | setHttpTimeoutMs _ | setCredentials _ =>
      exact ⟨h, iff_of_true ⟨hreads, trivial⟩ trivial⟩

/-- **Every read finds a NUL.** From the construction of an app, whatever its array then
holds, in every run of requests and settings and for every sequence of events and outcomes:
every array that is read as a C string holds a NUL and every byte the handler writes lies
inside the array, if and only if each attempt that is logged or parsed starts with a NUL in
the array or brings one. -/
theorem reads_terminated_iff (W : World σ) (api_key buf : Bytes)
    (hbuf : buf.length = HTTP_RECV_BUFFER_SIZE) (w : σ) (ops : List AppOp) :
    Along (AppOp.exec W) (AppOp.Safe W) (App.new W api_key buf w) ops ↔
      Along (AppOp.exec W) (AppOp.Terminates W) (App.new W api_key buf w) ops := by
  have hnew : (App.new W api_key buf w).recv.Sound ∧ (App.new W api_key buf w).ReadsTerminated :=
    ⟨⟨hbuf, by simp [App.new, HTTP_RECV_BUFFER_SIZE], by simp [App.new]⟩,
      by simp [App.ReadsTerminated, App.new]⟩
  constructor
  · refine Along.of_invariant (I := fun s => s.recv.Sound ∧ s.ReadsTerminated) ?_ hnew
    rintro s op ⟨hsound, hreads⟩ hsafe
    obtain ⟨hsound', hiff⟩ := AppOp.safe_iff (W := W) hsound hreads op
    exact ⟨hiff.mp hsafe, hsound', hsafe.1⟩
  · refine Along.of_invariant (I := fun s => s.recv.Sound ∧ s.ReadsTerminated) ?_ hnew
    rintro s op ⟨hsound, hreads⟩ hterm
    obtain ⟨hsound', hiff⟩ := AppOp.safe_iff (W := W) hsound hreads op
    have hsafe := hiff.mpr hterm
    exact ⟨hsafe, hsound', hsafe.1⟩

end Runs

/-- A first request that is answered with 200 on a connection of its own. -/
theorem reads_terminated_ok :
    Along (AppOp.exec okServer) (AppOp.Safe okServer)
      (App.new okServer (ascii "key") (List.replicate HTTP_RECV_BUFFER_SIZE 65) 0)
      [.request (ascii "u") .get [] true] := by
  refine (reads_terminated_iff okServer _ _ List.length_replicate _ _).mpr
    ⟨⟨fun _ => Or.inr ⟨rfl, .onConnected, ?_, rfl⟩, fun h => ?_⟩, trivial⟩
  · simp [okServer, scripted, Attempt.fresh]
  · exact absurd h (by decide)

/-- **The array as it was allocated.** The array holds no NUL, and the first attempt fails
before it is connected: its log reads past the end of the array. -/
theorem fresh_array_logged :
    ¬ Along (AppOp.exec offline) (AppOp.Safe offline)
      (App.new offline (ascii "key") (List.replicate HTTP_RECV_BUFFER_SIZE 65) 0)
      [.request (ascii "u") .get [] true] := by
  intro h
  have hfirst := h.1.1 (List.replicate HTTP_RECV_BUFFER_SIZE 65) List.mem_cons_self
  rw [List.mem_replicate] at hfirst
  exact absurd hfirst.2 (by decide)

/-! ### The callers -/

section Callers

variable {σ : Type} {W : World σ}

/-- The second state is reached from the first by actions of the callers. -/
def Performed (W : World σ) (s t : App σ) : Prop :=
  ∃ ops : List AppOp, t = ops.foldl (AppOp.exec W) s

theorem Performed.op (s : App σ) (op : AppOp) : Performed W s (op.exec W s) :=
  ⟨[op], rfl⟩

theorem Performed.trans {s t u : App σ} (h : Performed W s t) (h' : Performed W t u) :
    Performed W s u := by
  obtain ⟨ops, rfl⟩ := h
  obtain ⟨ops', rfl⟩ := h'
  exact ⟨ops ++ ops', by rw [List.foldl_append]⟩

/-- A request whose answer is not parsed. -/
theorem Performed.request (s : App σ) (url : Bytes) (method : Method) (post_field : Bytes) :
    Performed W s (performRequest W s url method post_field).2 :=
  ⟨[.request url method post_field false], by simp [AppOp.exec]⟩

/-- A request whose 200 answer is read. -/
theorem Performed.fetch {s : App σ} {url : Bytes} {method : Method} {post_field : Bytes}
    (h200 : (performRequest W s url method post_field).1.is200 = true) :
    Performed W s (performRequest W s url method post_field).2.readBuffer.2 :=
  ⟨[.request url method post_field true], by simp [AppOp.exec, h200]⟩

theorem Performed.asJson (s : App σ) :
    Performed W s (s.setHeader (ascii "content-type") (ascii "application/json")) :=
  .op s (.setHeader _ _)

theorem Performed.clear (s : App σ) : Performed W s s.clearHTTPBuffer :=
  .op s .clearHTTPBuffer

theorem getRefreshToken_performed {s t : App σ} {register_account : Bool} {err : EspErr}
    (h : getRefreshToken W s register_account = some (err, t)) : Performed W s t := by
  refine (Performed.asJson s).trans ?_
  simp only [getRefreshToken] at h
  generalize (if register_account = true then _ else _ : Bytes) = url at h
  split at h
  · rename_i h200
    simp only [Option.bind_eq_bind, Option.bind_eq_some_iff, Option.some.injEq, Prod.mk.injEq] at h
    obtain ⟨refresh_token, -, -, rfl⟩ := h
    exact (Performed.fetch h200).trans (.op _ (.setCredentials _))
  · simp only [Option.some.injEq, Prod.mk.injEq] at h
    exact h.2 ▸ .request _ _ _ _

theorem getAuthToken_performed {s t : App σ} {err : EspErr}
    (h : getAuthToken W s = some (err, t)) : Performed W s t := by
  refine (Performed.asJson s).trans ?_
  simp only [getAuthToken] at h
  split at h
  · rename_i h200
    simp only [Option.bind_eq_bind, Option.bind_eq_some_iff, Option.some.injEq, Prod.mk.injEq] at h
    obtain ⟨⟨auth_token, life⟩, -, -, rfl⟩ := h
    exact (Performed.fetch h200).trans (.op _ (.setCredentials _))
  · simp only [Option.some.injEq, Prod.mk.injEq] at h
    exact h.2 ▸ .request _ _ _ _

theorem signIn_performed {s t : App σ} {account : UserAccount} {register_account : Bool}
    {err : EspErr} (h : signIn W s account register_account = some (err, t)) :
    Performed W s t := by
  refine (Performed.op s (.setCredentials { s.toCredentials with user_account := account })).trans ?_
  simp only [signIn, Option.bind_eq_bind, Option.bind_eq_some_iff] at h
  obtain ⟨⟨err₁, s₁⟩, hrefresh, h⟩ := h
  have h₁ := getRefreshToken_performed hrefresh
  dsimp only at h
  split at h
  · simp only [Option.some.injEq, Prod.mk.injEq] at h
    exact h.2 ▸ h₁
  · simp only [Option.bind_eq_some_iff] at h
    obtain ⟨⟨err₂, s₂⟩, hauth, h⟩ := h
    have h₂ := (h₁.trans (.clear s₁)).trans (getAuthToken_performed hauth)
    dsimp only at h
    split at h
    · simp only [Option.some.injEq, Prod.mk.injEq] at h
      exact h.2 ▸ h₂
    · simp only [Option.some.injEq, Prod.mk.injEq] at h
      exact h.2 ▸ h₂.trans (.clear s₂)

theorem forceRefreshAuth_performed {s t : App σ} {err : EspErr}
    (h : forceRefreshAuth W s = some (err, t)) : Performed W s t := by
  simp only [forceRefreshAuth, Option.bind_eq_bind, Option.bind_eq_some_iff] at h
  obtain ⟨⟨err₁, s₁⟩, hauth, h⟩ := h
  have h₁ := getAuthToken_performed hauth
  dsimp only at h
  split at h
  · simp only [Option.some.injEq, Prod.mk.injEq] at h
    exact h.2 ▸ h₁.trans (.clear s₁)
  · exact h₁.trans (signIn_performed h)

/-- **The authentication calls** are made of actions on the app. -/
theorem AuthCall.performed {call : AuthCall} {s t : App σ} {err : EspErr}
    (h : call.run W s = some (err, t)) : Performed W s t := by
  cases call with
  | login account => exact signIn_performed h
  | register account => exact signIn_performed h
  | forceRefresh => exact forceRefreshAuth_performed h

/-! ### The database operations -/

/-- A database request, whose 200 answer is parsed or not. -/
theorem Performed.dbRequest {s : App σ} {d : Rtdb σ} (h : Performed W s d.app) (url : Bytes)
    (method : Method) (post_field : Bytes) :
    Performed W s (d.performRequest W url method post_field).2.app ∧
      ((d.performRequest W url method post_field).1.is200 = true →
        Performed W s (d.performRequest W url method post_field).2.parseResponse.2.app) :=
  ⟨h.trans (.request _ _ _ _), fun h200 => h.trans ((Performed.fetch h200).trans (.clear _))⟩

/-- A call that signs in again. -/
theorem Performed.renew {s : App σ} {d d' : Rtdb σ} {call : App σ → Option (EspErr × App σ)}
    (h : Performed W s d.app) (hcall : ∀ {err t}, call d.app = some (err, t) → Performed W d.app t)
    (hrenew : d.renew call = some d') : Performed W s d'.app := by
  simp only [Rtdb.renew, Option.map_eq_some_iff] at hrenew
  obtain ⟨⟨err, app⟩, hrun, rfl⟩ := hrenew
  exact h.trans (hcall hrun)

theorem Performed.dbAsJson {s : App σ} {d : Rtdb σ} (h : Performed W s d.app) :
    Performed W s (d.setHeader (ascii "content-type") (ascii "application/json")).app :=
  h.trans (.asJson _)

theorem Performed.dbClear {s : App σ} {d : Rtdb σ} (h : Performed W s d.app) :
    Performed W s d.clearHTTPBuffer.app :=
  h.trans (.clear _)

variable {s : App σ} {d : Rtdb σ}

theorem Performed.getData (h : Performed W s d.app) (path : CStr) :
    Performed W s (getData W d path).2.app := by
  have hfirst := h.dbAsJson.dbRequest
    ((dataTarget d.base_database_url path).url d.app.auth_token) .get []
  simp only [PppAmb.getData]
  generalize Rtdb.performRequest W _ _ .get [] = r at hfirst ⊢
  obtain ⟨ret, d₁⟩ := r
  split
  · exact hfirst.2 ‹_›
  · cases hrenew : d₁.renew fun app => loginUserAccount W app app.user_account with
    | none => exact hfirst.1
    | some d₂ =>
        have hlogin := hfirst.1.renew (fun hrun => signIn_performed hrun) hrenew
        have hsecond := hlogin.dbAsJson.dbRequest
          ((dataTarget d.base_database_url path).url d.app.auth_token) .get []
        dsimp only at hsecond ⊢
        generalize Rtdb.performRequest W _ _ .get [] = r at hsecond ⊢
        split
        · exact hsecond.2 ‹_›
        · exact hsecond.1.dbClear

theorem Performed.sendData (h : Performed W s d.app) (method : Method) (path json_str : CStr) :
    Performed W s (sendData W method d path json_str).2.app := by
  have hfirst := (h.dbAsJson.dbRequest
    ((dataTarget d.base_database_url path).url d.app.auth_token) method json_str.bytes).1
  simp only [PppAmb.sendData]
  generalize Rtdb.performRequest W _ _ method json_str.bytes = r at hfirst ⊢
  obtain ⟨ret, d₁⟩ := r
  split
  · cases hrenew : d₁.renew (forceRefreshAuth W) with
    | none => exact hfirst
    | some d₂ =>
        have hrefresh := hfirst.renew (fun hrun => forceRefreshAuth_performed hrun) hrenew
        have hsecond := (hrefresh.dbAsJson.dbRequest
          ((dataTarget d₂.base_database_url path).url d₂.app.auth_token) method json_str.bytes).1
        exact hsecond.dbClear
  · exact hfirst.dbClear

theorem Performed.setDeleteHeaders (h : Performed W s d.app) :
    Performed W s d.setDeleteHeaders.app :=
  (h.trans (.op _ (.setHeader _ _))).trans (.op _ (.setHeader _ _))

theorem Performed.deleteData (h : Performed W s d.app) (path : CStr) :
    Performed W s (deleteData W d path).2.app := by
  have htimeout : Performed W s (d.onApp fun s => s.setHttpTimeoutMs LONG_TIMEOUT_MS).app :=
    h.trans (.op _ (.setHttpTimeoutMs _))
  have hfirst := (htimeout.setDeleteHeaders.dbRequest
    ((deleteTarget d.base_database_url path).url d.app.auth_token) .delete []).1
  simp only [PppAmb.deleteData]
  generalize Rtdb.performRequest W _ _ .delete [] = r at hfirst ⊢
  obtain ⟨ret, d₁⟩ := r
  have hend : ∀ {d₁ : Rtdb σ}, Performed W s d₁.app →
      Performed W s (d₁.onApp App.restoreDefaultHttpTimeout).clearHTTPBuffer.app := by
    intro d₁ h₁
    exact (h₁.trans (.op _ (.setHttpTimeoutMs _))).trans (.clear _)
  split
  · cases hrenew : d₁.renew (forceRefreshAuth W) with
    | none => exact hfirst
    | some d₂ =>
        have hrefresh := hfirst.renew (fun hrun => forceRefreshAuth_performed hrun) hrenew
        have hsecond := (hrefresh.setDeleteHeaders.dbRequest
          ((deleteTarget d₂.base_database_url path).url d₂.app.auth_token) .delete []).1
        exact hend hsecond
  · exact hend hfirst

theorem Performed.deleteDays (root_path : CStr) (days : List Bytes) :
    ∀ {d : Rtdb σ}, Performed W s d.app →
      Performed W s (deleteDays W root_path days d).2.app := by
  induction days with
  | nil => exact id
  | cons day days ih =>
      intro d h
      have hday := h.deleteData (childPath root_path day)
      rw [PppAmb.deleteDays]
      generalize PppAmb.deleteData W d (childPath root_path day) = r at hday ⊢
      obtain ⟨_ | err, d₁⟩ := r
      · exact hday
      · exact ih hday

theorem Performed.trimDays (h : Performed W s d.app) (root_path : CStr) (max_days : Int) :
    Performed W s (trimDays W d root_path max_days).2.app := by
  have hfirst := h.dbAsJson.dbRequest
    ((shallowTarget d.base_database_url root_path).url d.app.auth_token) .get []
  simp only [PppAmb.trimDays]
  generalize Rtdb.performRequest W _ _ .get [] = r at hfirst ⊢
  obtain ⟨ret, d₁⟩ := r
  split
  · exact h
  · split
    · exact hfirst.1.dbClear
    · rename_i h200
      have hparse := hfirst.2 (not_not.mp h200)
      dsimp only at hparse ⊢
      generalize d₁.parseResponse = r at hparse ⊢
      obtain ⟨_ | days_obj, d₂⟩ := r
      · exact hparse
      · dsimp only
        split
        · exact hparse
        · cases days_obj.getMemberNames with
          | none => exact hparse
          | some days =>
              dsimp only
              split
              · exact hparse
              · exact .deleteDays root_path _ hparse

theorem Performed.trimOldestBatch (h : Performed W s d.app) (root_path : CStr) (batch_size : Int) :
    Performed W s (trimOldestBatch W d root_path batch_size).2.app := by
  have hfirst := h.dbAsJson.dbRequest
    ((listTarget d.base_database_url root_path batch_size).url d.app.auth_token) .get []
  simp only [PppAmb.trimOldestBatch]
  generalize Rtdb.performRequest W _ _ .get [] = r at hfirst ⊢
  obtain ⟨ret, d₁⟩ := r
  split
  · exact h
  · split
    · exact hfirst.1.dbClear
    · rename_i h200
      have hparse := hfirst.2 (not_not.mp h200)
      dsimp only at hparse ⊢
      generalize d₁.parseResponse = r at hparse ⊢
      obtain ⟨_ | obj, d₂⟩ := r
      · exact hparse
      · dsimp only
        split
        · exact hparse
        · cases obj.getMemberNames with
          | none => exact hparse
          | some keys =>
              dsimp only
              split
              · exact hparse
              · have hpatch := (hparse.dbAsJson.dbRequest
                  ((patchTarget d₂.base_database_url root_path).url d₂.app.auth_token) .patch
                  (patch_body keys)).1.dbClear
                split <;> exact hpatch

/-- **The database operations** are made of actions on the app. -/
theorem DbOp.performed (d : Rtdb σ) (op : DbOp) : Performed W d.app (op.run W d).app := by
  have hstart : Performed W d.app d.app := ⟨[], rfl⟩
  cases op with
  | getData path => exact hstart.getData path
  | putData path json_str => exact hstart.sendData .put path json_str
  | postData path json_str => exact hstart.sendData .post path json_str
  | patchData path json_str => exact hstart.sendData .patch path json_str
  | deleteData path => exact hstart.deleteData path
  | trimDays root_path max_days => exact hstart.trimDays root_path max_days
  | trimOldestBatch root_path batch_size => exact hstart.trimOldestBatch root_path batch_size

end Callers

end PppAmb
