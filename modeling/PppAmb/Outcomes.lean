import PppAmb.Wire

/-!
# Requests over a Sequence of Outcomes

Many properties of the program speak about the outcome of each HTTP attempt and not about
the events it is made of. Here an outcome is an error code, a status and a body of any
bytes, and the world answers the attempts with a given sequence of outcomes, each on a
connection of its own; every setter succeeds. A request then takes the next outcomes up
to the first success, and at most five of them.

## Main results

* `settle`: the outcome a request ends with, and how many outcomes are used up by then.
* `performRequest_answers`: what a request returns, what it leaves in the receive array
  and what it records, in terms of `settle`.
-/

namespace PppAmb

/-- The outcome of one attempt. -/
structure Outcome where
  err : EspErr
  status_code : Int
  body : Bytes
  deriving DecidableEq

/-- The attempt with this outcome. -/
def Outcome.attempt (o : Outcome) : Attempt :=
  .fresh o.err o.status_code o.body

/-- The value `performRequest` returns for an outcome. -/
def Outcome.ret (o : Outcome) : HttpRet :=
  ⟨o.err, o.status_code⟩

/-- A sequence of outcomes, with the services of the C library. -/
structure Answers where
  outcome : ℕ → Outcome
  clock : ℕ → Int
  printReal : Bytes → Bytes

/-- The world that gives these answers; its state is the number of attempts made so
far. -/
def Answers.world (A : Answers) : World ℕ :=
  scripted (fun n => (A.outcome n).attempt) A.clock A.printReal

/-- The outcome a request ends with when `k` retries are allowed and the next outcome has
the number `n`, together with the number of the outcome that comes after it. -/
def settle (A : Answers) : ℕ → ℕ → Outcome × ℕ
  | 0, n => (A.outcome n, n + 1)
  | k + 1, n =>
      if (A.outcome n).ret.is2xx then (A.outcome n, n + 1) else settle A k (n + 1)

/-- The app works with the handle its constructor asked for, and the receive array has
its size. -/
structure App.Ready {σ : Type} (s : App σ) : Prop where
  handle : ∃ c, s.client = some c ∧ c.handler = true
  size : s.recv.local_response_buffer.length = HTTP_RECV_BUFFER_SIZE

/-! ### The handler stays installed -/

section Handler

variable {σ : Type} {W : World σ}

/-- A header leaves the event handler as it is. -/
@[simp] theorem Client.handler_setHeader (c : Client) (header value : Bytes) :
    (c.setHeader header value).handler = c.handler := by
  rw [Client.setHeader]
  split <;> rfl

/-- Setting the body leaves the event handler. -/
@[simp] theorem applyPostField_handler (w : σ) (c : Client) (data : Bytes) :
    (applyPostField W w c data).1.handler = c.handler := by
  simp only [applyPostField]
  split <;> rfl

/-- Setting the method leaves it. -/
@[simp] theorem applyMethod_handler (w : σ) (c : Client) (method : Method) :
    (applyMethod W w c method).1.handler = c.handler := by
  simp only [applyMethod]
  split <;> rfl

/-- The body is set, or taken off; the event handler stays. -/
@[simp] theorem applyBody_handler (w : σ) (c : Client) (method : Method) (post_field : Bytes) :
    (applyBody W w c method post_field).1.handler = c.handler := by
  simp only [applyBody]
  split <;> simp

/-- The event handler is the same at every attempt. -/
@[simp] theorem prepareRetry_handler (w : σ) (c : Client) (method : Method) :
    (prepareRetry W w c method).1.handler = c.handler := by
  simp only [prepareRetry]
  split <;> simp

/-- Headers may be set before a request. -/
theorem App.Ready.setHeader {s : App σ} (h : s.Ready) (header value : Bytes) :
    (s.setHeader header value).Ready := by
  obtain ⟨⟨c, hc, hh⟩, hsize⟩ := h
  exact ⟨⟨c.setHeader header value, by simp [App.setHeader, hc], by simp [hh]⟩, hsize⟩

/-- The time-out may be set before a request. -/
theorem App.Ready.setHttpTimeoutMs {σ : Type} {s : App σ} (h : s.Ready) (ms : Int) :
    (s.setHttpTimeoutMs ms).Ready := by
  obtain ⟨⟨c, hc, hh⟩, hsize⟩ := h
  exact ⟨⟨{ c with timeout_ms := ms }, by simp [App.setHttpTimeoutMs, hc], hh⟩, hsize⟩

/-- Clearing the buffer keeps its size. -/
theorem App.Ready.clearHTTPBuffer {s : App σ} (h : s.Ready) : s.clearHTTPBuffer.Ready :=
  ⟨h.handle, length_zeroed _⟩

/-- After a failure the app is ready for the next attempt. -/
theorem App.Ready.afterFailure {s : App σ} (h : s.Ready) (method : Method) :
    (s.afterFailure W method).Ready := by
  obtain ⟨⟨c, hc, hh⟩, hsize⟩ := h
  refine ⟨?_, by rw [App.afterFailure_recv]; exact hsize⟩
  simp only [App.afterFailure, App.readBuffer, hc]
  exact ⟨_, rfl, by rw [prepareRetry_handler, hh]⟩

/-- An attempt keeps the size of the buffer. -/
theorem App.ready_perform {s : App σ} {c : Client}
    (hsize : s.recv.local_response_buffer.length = HTTP_RECV_BUFFER_SIZE)
    (hc : c.handler = true) : (s.perform W c).2.Ready :=
  ⟨⟨_, rfl, hc⟩, App.length_perform_buffer hsize c⟩

end Handler

/-! ### Requests -/

section Requests

variable {A : Answers}

/-- In this world the setters always hold. -/
theorem settersHold_answers {s : App ℕ} (h : s.Ready) (url : Bytes) (method : Method)
    (post_field : Bytes) :
    SettersHold A.world s.world s.client url method post_field := by
  obtain ⟨c, hc, -⟩ := h.handle
  rw [hc]
  exact ⟨Or.inl rfl, Or.inl rfl, Or.inl rfl⟩

/-- The settings of an attempt keep the handler, and cost no outcome. -/
theorem setUp_answers {s : App ℕ} (h : s.Ready) (url : Bytes) (method : Method)
    (post_field : Bytes) :
    ∃ c, setUp A.world s.world s.client url method post_field
      = (some c, s.world) ∧ c.handler = true := by
  obtain ⟨c, hc, hh⟩ := h.handle
  rw [hc]
  cases hb : method.hasBody with
  | true =>
      refine ⟨_, by simp only [setUp, useClient, applyMethod, applyBody, applyPostField, hb,
        Answers.world, scripted, if_true]; rfl, ?_⟩
      simp [hh]
  | false =>
      refine ⟨_, by simp only [setUp, useClient, applyMethod, applyBody, applyPostField, hb,
        Answers.world, scripted, if_true, Bool.false_eq_true, if_false]; rfl, ?_⟩
      simp [hh]

/-- A successful response on its own connection leaves what was received of its body. -/
theorem cString_perform_answers {s : App ℕ} (hs : s.Ready) {c : Client} (hc : c.handler = true)
    (hok : (A.outcome s.world).err = ESP_OK) :
    cString (s.perform A.world c).2.recv.local_response_buffer
      = received (A.outcome s.world).body := by
  have hstart : CleanStart c s.recv (A.outcome s.world).attempt :=
    ⟨hc, Or.inl (by simp [Outcome.attempt, Attempt.fresh])⟩
  have hclean := cString_of_cleanStart (Attempt.legal_fresh _ _ _ c.connOpen) hok hs.size hstart
  simp only [App.perform, hc, if_true]
  rw [← Attempt.body_fresh (A.outcome s.world).err (A.outcome s.world).status_code
    (A.outcome s.world).body]
  exact hclean

/-- What a request made under the auth token `token` has done when it ends with the outcome
`o` and the outcomes before `n` are used up. -/
structure Settled (token : Bytes) (t : App ℕ) (ret : HttpRet) (o : Outcome) (n : ℕ) : Prop where
  ret_eq : ret = o.ret
  world_eq : t.world = n
  ready : t.Ready
  text : o.ret.is2xx = true → cString t.recv.local_response_buffer = received o.body
  last : ∃ c, t.sent.getLast? = some ⟨c, token, o.attempt⟩

/-- The pause after a failure takes no answer. -/
theorem world_afterFailure_answers (s : App ℕ) (method : Method) :
    (s.afterFailure A.world method).world = s.world := by
  rw [App.afterFailure]
  dsimp only
  split
  · rfl
  · simp only [prepareRetry, applyPostField, Answers.world, scripted, App.readBuffer]
    split <;> rfl

/-- The attempt that succeeds settles the request. -/
theorem settled_of_success {s : App ℕ} (hs : s.Ready) {c : Client} (hc : c.handler = true)
    (hok : (A.outcome s.world).ret.is2xx = true) :
    Settled s.auth_token (s.perform A.world c).2.close (A.outcome s.world).ret
      (A.outcome s.world) (s.world + 1) := by
  have herr : (A.outcome s.world).err = ESP_OK := by
    simp only [HttpRet.is2xx, decide_eq_true_eq] at hok
    exact hok.1
  have hready := App.ready_perform (W := A.world) (c := c) hs.size hc
  refine ⟨rfl, rfl, ⟨⟨_, rfl, hc⟩, hready.size⟩, fun _ => ?_, ⟨c, ?_⟩⟩
  · exact cString_perform_answers hs hc herr
  · simp [App.perform, App.close, Answers.world, scripted]

/-- The loop takes the outcomes in turn, up to the first that succeeds. -/
theorem requestLoop_answers (url : Bytes) (method : Method) (post_field : Bytes) (k : ℕ) :
    ∀ (err : EspErr) (status : Int) {s : App ℕ}, s.Ready →
      Settled s.auth_token (requestLoop A.world url method post_field (k + 1) err status s).2
        (requestLoop A.world url method post_field (k + 1) err status s).1
        (settle A k s.world).1 (settle A k s.world).2 := by
  induction k with
  | zero =>
      intro err status s hs
      obtain ⟨c, hset, hh⟩ := setUp_answers (A := A) hs url method post_field
      have hready := App.ready_perform (W := A.world) (c := c) hs.size hh
      rw [requestLoop, hset]
      cases hok : (A.outcome s.world).ret.is2xx with
      | true =>
          have hsucc : (s.perform A.world c).1.succeeded = true := hok
          simp only [hsucc, if_true]
          exact settled_of_success hs hh hok
      | false =>
          have hsucc : (s.perform A.world c).1.succeeded = false := hok
          simp only [hsucc, Bool.false_eq_true, if_false, requestLoop]
          refine ⟨rfl, world_afterFailure_answers _ _, hready.afterFailure method,
            fun h => absurd h ?_, ⟨c, ?_⟩⟩
          · simp [settle, hok]
          · simp [settle, Answers.world, scripted]
  | succ k ih =>
      intro err status s hs
      obtain ⟨c, hset, hh⟩ := setUp_answers (A := A) hs url method post_field
      have hready := App.ready_perform (W := A.world) (c := c) hs.size hh
      rw [requestLoop, hset]
      cases hok : (A.outcome s.world).ret.is2xx with
      | true =>
          have hsucc : (s.perform A.world c).1.succeeded = true := hok
          simp only [hsucc, if_true, settle, hok]
          exact settled_of_success hs hh hok
      | false =>
          have hsucc : (s.perform A.world c).1.succeeded = false := hok
          have hrest := ih (s.perform A.world c).1.err (s.perform A.world c).1.status_code
            (hready.afterFailure (W := A.world) method)
          have htoken : ((s.perform A.world c).2.afterFailure A.world method).auth_token
              = s.auth_token := congrArg Credentials.auth_token (by simp)
          have hworld : ((s.perform A.world c).2.afterFailure A.world method).world = s.world + 1 :=
            world_afterFailure_answers _ _
          rw [htoken, hworld] at hrest
          simp only [hsucc, Bool.false_eq_true, if_false, settle, hok]
          exact hrest

/-- **A request over a sequence of outcomes.** -/
theorem performRequest_answers {s : App ℕ} (hs : s.Ready) (url : Bytes) (method : Method)
    (post_field : Bytes) :
    Settled s.auth_token (performRequest A.world s url method post_field).2
      (performRequest A.world s url method post_field).1
      (settle A 4 s.world).1 (settle A 4 s.world).2 :=
  requestLoop_answers url method post_field 4 ESP_FAIL (-1) hs

end Requests

end PppAmb
