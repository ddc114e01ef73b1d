import PppAmb.HttpClient
import PppAmb.Run

/-!
# What the Receive Array Holds

The event handler collects a body across `ON_DATA` events, and only a new connection or
`clearHTTPBuffer` empties the array; the end of a response resets the counter alone.
This module follows the array through whole requests.

## Main results

* `requestLoop_rule`: the invariant rule for the attempts of one request.
* `filled_receive`: chunks extend the text collected so far up to 16383 bytes.
* `cString_of_cleanStart`: an attempt that starts clean leaves exactly the first 16383
  bytes of its body in the array.
* `responses_exact_of_clean`: in every run whose successful attempts start clean, each
  successful request leaves exactly its own body.
* `stale_body_kept`: a run that breaks this, with an empty answer received on the
  connection of a failed attempt.
-/

namespace PppAmb

/-! ### The invariant rule of the request loop -/

section Rule

variable {σ : Type} {W : World σ} {url : Bytes} {method : Method} {post_field : Bytes}

/-- **The invariant rule of `requestLoop`.** `I n err status s` holds before an attempt
when `n` attempts are left; a failed attempt has to restore it, and every way out of the
loop has to establish `Q`. -/
theorem requestLoop_rule {I : ℕ → EspErr → Int → App σ → Prop} {Q : HttpRet → App σ → Prop}
    (hend : ∀ err status s, I 0 err status s → Q ⟨err, status⟩ s)
    (hnone : ∀ n err status s w, I (n + 1) err status s →
      setUp W s.world s.client url method post_field = (none, w) →
      Q ⟨err, status⟩ { s with world := w })
    (hok : ∀ n err status s c w, I (n + 1) err status s →
      setUp W s.world s.client url method post_field = (some c, w) →
      (W.perform w c).1.succeeded = true →
      Q ⟨(W.perform w c).1.err, (W.perform w c).1.status_code⟩
        (({ s with world := w } : App σ).perform W c).2.close)
    (hretry : ∀ n err status s c w, I (n + 1) err status s →
      setUp W s.world s.client url method post_field = (some c, w) →
      (W.perform w c).1.succeeded = false →
      I n (W.perform w c).1.err (W.perform w c).1.status_code
        ((({ s with world := w } : App σ).perform W c).2.afterFailure W method)) :
    ∀ n err status s, I n err status s →
      Q (requestLoop W url method post_field n err status s).1
        (requestLoop W url method post_field n err status s).2 := by
  intro n
  induction n with
  | zero =>
      intro err status s hI
      exact hend err status s hI
  | succ n ih =>
      intro err status s hI
      rw [requestLoop]
      rcases hset : setUp W s.world s.client url method post_field with ⟨_ | c, w⟩
      · exact hnone n err status s w hI hset
      · cases hs : (W.perform w c).1.succeeded with
        | true =>
            simp only [App.perform, hs, if_true]
            exact hok n err status s c w hI hset hs
        | false =>
            simp only [App.perform, hs, Bool.false_eq_true, if_false]
            exact ih _ _ _ (hretry n err status s c w hI hset hs)

end Rule

/-! ### The events of one attempt -/

/-- Events on which the handler does nothing. -/
def HttpEvent.silent : HttpEvent → Bool
  | .error | .headerSent | .onHeader _ _ | .redirect | .disconnected => true
  | .onConnected | .onFinish | .onData _ => false

/-- Events while a response comes in: silent ones and chunks. -/
def HttpEvent.Receiving : HttpEvent → Prop
  | .onData _ => True
  | e => e.silent = true

/-- How the events of a response end: the response breaks off, or it completes with
`ON_FINISH` and only silent events follow. -/
def Ending (a : Attempt) (post : List HttpEvent) : Prop :=
  (post = [] ∧ a.err ≠ ESP_OK) ∨ ∃ tail, post = .onFinish :: tail ∧ ∀ e ∈ tail, e.silent = true

/-- The orders of events an attempt may deliver, when the connection is open before it or
not: it fails before it is connected, it opens a new connection, or it goes on with the
connection that is open. -/
inductive Attempt.Legal (connOpen : Bool) (a : Attempt) : Prop
  | unconnected (hpre : ∀ e ∈ a.events, e.silent = true) (herr : a.err ≠ ESP_OK)
  | connected (pre mid post : List HttpEvent)
      (hev : a.events = pre ++ .onConnected :: (mid ++ post))
      (hpre : ∀ e ∈ pre, e.silent = true) (hmid : ∀ e ∈ mid, e.Receiving)
      (hpost : Ending a post)
  | reused (mid post : List HttpEvent) (hopen : connOpen = true)
      (hev : a.events = mid ++ post) (hmid : ∀ e ∈ mid, e.Receiving)
      (hpost : Ending a post)

/-- Every attempt of the world delivers its events in a legal order. -/
def World.InOrder {σ : Type} (W : World σ) : Prop :=
  ∀ w c, (W.perform w c).1.Legal c.connOpen

/-- Every attempt of the world delivers its events in a legal order, and the bodies hold
no NUL bytes. -/
def World.Legal {σ : Type} (W : World σ) : Prop :=
  ∀ w c, (W.perform w c).1.Legal c.connOpen ∧ NulFree (W.perform w c).1.body

theorem World.Legal.inOrder {σ : Type} {W : World σ} (h : W.Legal) : W.InOrder :=
  fun w c => (h w c).1

/-- The C string a body leaves in the receive array. -/
def received (body : Bytes) : Bytes :=
  cString (body.take (HTTP_RECV_BUFFER_SIZE - 1))

/-- The bytes a list of events brings. -/
def eventBody (es : List HttpEvent) : Bytes :=
  (es.map HttpEvent.data).flatten

theorem eventBody_append (es fs : List HttpEvent) :
    eventBody (es ++ fs) = eventBody es ++ eventBody fs := by
  simp [eventBody]

theorem HttpEvent.data_of_silent {e : HttpEvent} (h : e.silent = true) : e.data = [] := by
  cases e <;> first | rfl | simp [HttpEvent.silent] at h

theorem eventBody_of_silent {es : List HttpEvent} (h : ∀ e ∈ es, e.silent = true) :
    eventBody es = [] := by
  induction es with
  | nil => rfl
  | cons e es ih =>
      have he := HttpEvent.data_of_silent (h e List.mem_cons_self)
      have hes := ih fun f hf => h f (List.mem_cons_of_mem _ hf)
      simp only [eventBody, List.map_cons, List.flatten_cons, he] at hes ⊢
      exact hes

theorem not_onConnected_of_receiving {es : List HttpEvent} (h : ∀ e ∈ es, e.Receiving) :
    HttpEvent.onConnected ∉ es := by
  intro hmem
  simpa [HttpEvent.Receiving, HttpEvent.silent] using h _ hmem

/-- What follows the chunks of a response brings no bytes and opens no connection. -/
theorem Ending.eventBody_eq_nil {a : Attempt} {post : List HttpEvent} (h : Ending a post) :
    eventBody post = [] := by
  rcases h with ⟨rfl, -⟩ | ⟨tail, rfl, htail⟩
  · rfl
  · have hbody := eventBody_of_silent htail
    simpa [eventBody, HttpEvent.data] using hbody

theorem Ending.not_onConnected {a : Attempt} {post : List HttpEvent} (h : Ending a post) :
    HttpEvent.onConnected ∉ post := by
  rcases h with ⟨rfl, -⟩ | ⟨tail, rfl, htail⟩
  · exact List.not_mem_nil
  · intro hmem
    rcases List.mem_cons.mp hmem with hhead | hin
    · exact absurd hhead (by simp)
    · simpa [HttpEvent.silent] using htail _ hin

/-! ### The handler over the events of a response -/

theorem http_event_handler_silent {e : HttpEvent} (h : e.silent = true) (r : Recv) :
    http_event_handler r e = r := by
  cases e <;> first | rfl | simp [HttpEvent.silent] at h

theorem foldl_handler_silent {es : List HttpEvent} (h : ∀ e ∈ es, e.silent = true) (r : Recv) :
    es.foldl http_event_handler r = r := by
  induction es generalizing r with
  | nil => rfl
  | cons e es ih =>
      rw [List.foldl_cons, http_event_handler_silent (h e List.mem_cons_self)]
      exact ih (fun f hf => h f (List.mem_cons_of_mem _ hf)) r

/-- The counter and the array agree that `text` has been collected. Before the first
byte is, the array may still hold anything. -/
structure Filled (r : Recv) (text : Bytes) : Prop where
  len : r.output_len = text.length
  room : text.length < HTTP_RECV_BUFFER_SIZE
  size : r.local_response_buffer.length = HTTP_RECV_BUFFER_SIZE
  content : r.local_response_buffer.take text.length = text
  terminated : text ≠ [] → r.local_response_buffer[text.length]? = some 0

/-- With an empty counter nothing has been collected yet. -/
theorem filled_nil {r : Recv} (hlen : r.output_len = 0)
    (hsize : r.local_response_buffer.length = HTTP_RECV_BUFFER_SIZE) : Filled r [] where
  len := hlen
  room := by simp [HTTP_RECV_BUFFER_SIZE]
  size := hsize
  content := rfl
  terminated := fun h => absurd rfl h

/-- One chunk extends the collected text, up to the capacity of the array. -/
theorem Filled.onData {r : Recv} {text : Bytes} (h : Filled r text) (data : Bytes) :
    Filled (http_event_handler r (.onData data))
      ((text ++ data).take (HTTP_RECV_BUFFER_SIZE - 1)) := by
  obtain ⟨hlen, hroom, hsize, hcontent, hterm⟩ := h
  have hstay : text.take (HTTP_RECV_BUFFER_SIZE - 1) = text := List.take_of_length_le (by omega)
  by_cases hdata : data.length > 0
  · by_cases hspace : HTTP_RECV_BUFFER_SIZE - 1 - text.length > 0
    · set k := if data.length < HTTP_RECV_BUFFER_SIZE - 1 - text.length then data.length
        else HTTP_RECV_BUFFER_SIZE - 1 - text.length with hk
      have hkd : (data.take k).length = k := by
        rw [List.length_take]
        split at hk <;> omega
      have hkroom : text.length + k ≤ HTTP_RECV_BUFFER_SIZE - 1 := by
        split at hk <;> omega
      have hnew : (text ++ data).take (HTTP_RECV_BUFFER_SIZE - 1) = text ++ data.take k := by
        rw [take_append_room data (by omega), hk, take_room]
      obtain ⟨hlen', hcontent', hterm'⟩ := @memcpy_terminated r.local_response_buffer text
        (data.take k) hcontent (by omega)
      rw [hkd] at hlen' hcontent' hterm'
      rw [hnew, http_event_handler]
      simp only [hdata, hlen, hspace, if_true, ← hk]
      refine ⟨?_, ?_, by rw [hlen', hsize], hcontent', fun _ => hterm'⟩
      · rw [List.length_append, hkd]
      · rw [List.length_append, hkd]
        omega
    · have hfull : (text ++ data).take (HTTP_RECV_BUFFER_SIZE - 1) = text := by
        rw [List.take_append_of_le_length (by omega), hstay]
      rw [hfull, http_event_handler]
      simp only [hdata, hlen, hspace, if_true, if_false]
      exact ⟨hlen, hroom, hsize, hcontent, hterm⟩
  · obtain rfl : data = [] := List.length_eq_zero_iff.mp (by omega)
    rw [List.append_nil, hstay, http_event_handler]
    exact ⟨hlen, hroom, hsize, hcontent, hterm⟩

/-- **Collection.** While a response comes in, the collected text is extended by the
bytes of its chunks, up to the capacity of the array. -/
theorem filled_receive {es : List HttpEvent} (hes : ∀ e ∈ es, e.Receiving) :
    ∀ {r : Recv} {text : Bytes}, Filled r text →
      Filled (es.foldl http_event_handler r)
        ((text ++ eventBody es).take (HTTP_RECV_BUFFER_SIZE - 1)) := by
  induction es with
  | nil =>
      intro r text h
      have hroom := h.room
      rw [show eventBody [] = [] from rfl, List.append_nil, List.take_of_length_le (by omega)]
      exact h
  | cons e es ih =>
      intro r text h
      have hrest : ∀ f ∈ es, f.Receiving := fun f hf => hes f (List.mem_cons_of_mem _ hf)
      have hstep : Filled (http_event_handler r e)
          ((text ++ e.data).take (HTTP_RECV_BUFFER_SIZE - 1)) := by
        cases e with
        | onData data => exact h.onData data
        | onConnected | onFinish =>
            exact absurd (hes _ List.mem_cons_self) (by simp [HttpEvent.Receiving, HttpEvent.silent])
        | _ =>
            have hroom := h.room
            simp only [HttpEvent.data, List.append_nil]
            rw [List.take_of_length_le (by omega)]
            exact h
      have hall := ih hrest hstep
      rw [List.foldl_cons]
      have hbody : eventBody (e :: es) = e.data ++ eventBody es := rfl
      rwa [hbody, ← List.append_assoc, ← take_take_append]

/-- While no bytes come in, the array and the counter stay as they are. -/
theorem foldl_receive_of_empty {es : List HttpEvent} (hes : ∀ e ∈ es, e.Receiving)
    (hbody : eventBody es = []) (r : Recv) : es.foldl http_event_handler r = r := by
  induction es generalizing r with
  | nil => rfl
  | cons e es ih =>
      have hrest : ∀ f ∈ es, f.Receiving := fun f hf => hes f (List.mem_cons_of_mem _ hf)
      have hsplit : e.data = [] ∧ eventBody es = [] := List.append_eq_nil_iff.mp hbody
      have hstep : http_event_handler r e = r := by
        cases e with
        | onData data =>
            obtain rfl : data = [] := hsplit.1
            rfl
        | onConnected | onFinish =>
            exact absurd (hes _ List.mem_cons_self) (by simp [HttpEvent.Receiving, HttpEvent.silent])
        | _ => rfl
      rw [List.foldl_cons, hstep]
      exact ih hrest hsplit.2 r

/-- The end of a response leaves the array as it is. -/
theorem Ending.foldl_buffer {a : Attempt} {post : List HttpEvent} (h : Ending a post) (r : Recv) :
    (post.foldl http_event_handler r).local_response_buffer = r.local_response_buffer := by
  rcases h with ⟨rfl, -⟩ | ⟨tail, rfl, htail⟩
  · rfl
  · rw [List.foldl_cons, foldl_handler_silent htail]
    rfl

/-- The C string after a whole response: the collected body, or what the array held
before if the body is empty. -/
theorem cString_foldl_response {a : Attempt} {mid post : List HttpEvent}
    (hmid : ∀ e ∈ mid, e.Receiving) (hpost : Ending a post) {r : Recv} (hlen : r.output_len = 0)
    (hsize : r.local_response_buffer.length = HTTP_RECV_BUFFER_SIZE)
    (hclean : eventBody mid ≠ [] ∨ cString r.local_response_buffer = []) :
    cString ((mid ++ post).foldl http_event_handler r).local_response_buffer
      = cString ((eventBody mid).take (HTTP_RECV_BUFFER_SIZE - 1)) := by
  rw [List.foldl_append, hpost.foldl_buffer]
  by_cases hbody : eventBody mid = []
  · rw [foldl_receive_of_empty hmid hbody, hbody, List.take_nil, show cString [] = [] from rfl]
    exact hclean.resolve_left (not_not_intro hbody)
  · have hfill := filled_receive hmid (filled_nil hlen hsize)
    rw [List.nil_append] at hfill
    refine cString_of_take hfill.content (hfill.terminated ?_)
    intro hnil
    rcases List.take_eq_nil_iff.mp hnil with h | h
    · simp [HTTP_RECV_BUFFER_SIZE] at h
    · exact hbody h

/-- **A clean start**: the handler is installed, and the attempt opens its own connection,
or goes on with an open one while nothing is pending in the counter and no old text can
show through an empty body. -/
def CleanStart (c : Client) (r : Recv) (a : Attempt) : Prop :=
  c.handler = true ∧ (HttpEvent.onConnected ∈ a.events ∨
    (r.output_len = 0 ∧ (a.body ≠ [] ∨ cString r.local_response_buffer = [])))

/-- **An attempt that starts clean leaves its own body**: after a completed response the
C string in the array is that of the first 16383 bytes of the body. -/
theorem cString_of_cleanStart {c : Client} {r : Recv} {a : Attempt} (hlegal : a.Legal c.connOpen)
    (herr : a.err = ESP_OK) (hsize : r.local_response_buffer.length = HTTP_RECV_BUFFER_SIZE)
    (hclean : CleanStart c r a) :
    cString (a.events.foldl http_event_handler r).local_response_buffer
      = received a.body := by
  rw [received]
  cases hlegal with
  | unconnected _ hne => exact absurd herr hne
  | connected pre mid post hev hpre hmid hpost =>
      have hbody : a.body = eventBody mid := by
        have hconn : eventBody (.onConnected :: (mid ++ post)) = eventBody (mid ++ post) := rfl
        rw [Attempt.body, hev, ← eventBody, eventBody_append, hconn, eventBody_append,
          eventBody_of_silent hpre, hpost.eventBody_eq_nil, List.nil_append, List.append_nil]
      rw [hev, List.foldl_append, foldl_handler_silent hpre, List.foldl_cons, hbody]
      exact cString_foldl_response hmid hpost rfl (length_zeroed _) (Or.inr (cString_zeroed _))
  | reused mid post hopen hev hmid hpost =>
      have hbody : a.body = eventBody mid := by
        rw [Attempt.body, hev, ← eventBody, eventBody_append, hpost.eventBody_eq_nil,
          List.append_nil]
      have hnot : HttpEvent.onConnected ∉ a.events := by
        rw [hev, List.mem_append, not_or]
        exact ⟨not_onConnected_of_receiving hmid, hpost.not_onConnected⟩
      obtain ⟨hlen, hfresh⟩ := hclean.2.resolve_left hnot
      rw [hbody] at hfresh
      rw [hev, hbody]
      exact cString_foldl_response hmid hpost hlen hsize hfresh

/-- The handler keeps the size of the array. -/
theorem length_http_event_handler {r : Recv}
    (h : r.local_response_buffer.length = HTTP_RECV_BUFFER_SIZE) (e : HttpEvent) :
    (http_event_handler r e).local_response_buffer.length = HTTP_RECV_BUFFER_SIZE := by
  cases e with
  | onConnected => exact length_zeroed _
  | onData data =>
      rw [http_event_handler]
      dsimp only
      split
      · split
        · rw [List.length_set, length_memcpy, h]
          rw [List.length_take, h]
          split <;> omega
        · exact h
      · exact h
  | _ => exact h

theorem length_foldl_handler (es : List HttpEvent) :
    ∀ {r : Recv}, r.local_response_buffer.length = HTTP_RECV_BUFFER_SIZE →
      (es.foldl http_event_handler r).local_response_buffer.length = HTTP_RECV_BUFFER_SIZE := by
  induction es with
  | nil => exact id
  | cons e es ih => exact fun h => ih (length_http_event_handler h e)

/-! ### Requests and runs of requests -/

section Runs

variable {σ : Type} (W : World σ)

/-- `P` holds of every attempt a request makes: of the settings it is made with, of the
receive array before it, and of what it brings. -/
def ForAttempts (P : Client → Recv → Attempt → Prop) (url : Bytes) (method : Method)
    (post_field : Bytes) : ℕ → App σ → Prop
  | 0, _ => True
  | n + 1, s =>
      match setUp W s.world s.client url method post_field with
      | (none, _) => True
      | (some c, w) =>
          P c s.recv (W.perform w c).1 ∧ ((W.perform w c).1.succeeded = false →
            ForAttempts P url method post_field n
              ((({ s with world := w } : App σ).perform W c).2.afterFailure W method))

/-- What callers do with the client: requests, and clearing the array between them. -/
inductive ClientOp
  | request (url : Bytes) (method : Method) (post_field : Bytes)
  | clear

/-- The state after an operation. -/
def ClientOp.exec (s : App σ) : ClientOp → App σ
  | .request url method post_field => (performRequest W s url method post_field).2
  | .clear => s.clearHTTPBuffer

/-- The successful attempt of the request, if any, starts clean. -/
def ClientOp.Clean (s : App σ) : ClientOp → Prop
  | .request url method post_field =>
      ForAttempts W (fun c r a => a.succeeded = true → CleanStart c r a) url method post_field 5 s
  | .clear => True

/-- If the request returns `{ESP_OK, 2xx}`, the C string in the array is exactly the first
16383 bytes of the body of the response that was received last. -/
def ClientOp.Exact (s : App σ) : ClientOp → Prop
  | .request url method post_field =>
      (performRequest W s url method post_field).1.is2xx = true →
        ∃ e, (performRequest W s url method post_field).2.sent.getLast? = some e ∧
          cString (performRequest W s url method post_field).2.recv.local_response_buffer
            = e.attempt.body.take 16383
  | .clear => True

variable {W}

theorem HttpRet.is2xx_of_is200 {r : HttpRet} (h : r.is200 = true) : r.is2xx = true := by
  have h' : r.err = ESP_OK ∧ r.status_code = 200 := of_decide_eq_true h
  exact decide_eq_true ⟨h'.1, by omega, by omega⟩

theorem App.afterFailure_recv (s : App σ) (method : Method) :
    (s.afterFailure W method).recv = s.recv := by
  rw [App.afterFailure]
  dsimp only
  split <;> rfl

theorem App.length_perform_buffer {s : App σ}
    (h : s.recv.local_response_buffer.length = HTTP_RECV_BUFFER_SIZE) (c : Client) :
    (s.perform W c).2.recv.local_response_buffer.length = HTTP_RECV_BUFFER_SIZE := by
  simp only [App.perform]
  split
  · exact length_foldl_handler _ h
  · exact h

/-- A request keeps the size of the array. -/
theorem length_performRequest_buffer {url : Bytes} {method : Method} {post_field : Bytes}
    {s : App σ} (hsize : s.recv.local_response_buffer.length = HTTP_RECV_BUFFER_SIZE) :
    (performRequest W s url method post_field).2.recv.local_response_buffer.length
      = HTTP_RECV_BUFFER_SIZE := by
  refine requestLoop_rule
    (I := fun _ _ _ s => s.recv.local_response_buffer.length = HTTP_RECV_BUFFER_SIZE)
    (Q := fun _ s => s.recv.local_response_buffer.length = HTTP_RECV_BUFFER_SIZE)
    ?_ ?_ ?_ ?_ 5 ESP_FAIL (-1) s hsize
  · exact fun _ _ _ h => h
  · exact fun _ _ _ _ _ h _ => h
  · exact fun _ _ _ s c w h _ _ => App.length_perform_buffer (s := { s with world := w }) h c
  · intro n err status s c w h _ _
    rw [App.afterFailure_recv]
    exact App.length_perform_buffer (s := { s with world := w }) h c

/-- A request whose successful attempt starts clean leaves what was received of its own body. -/
theorem performRequest_received (hW : W.InOrder) {url : Bytes} {method : Method}
    {post_field : Bytes} {s : App σ}
    (hsize : s.recv.local_response_buffer.length = HTTP_RECV_BUFFER_SIZE)
    (hclean : (ClientOp.request url method post_field).Clean W s)
    (h2xx : (performRequest W s url method post_field).1.is2xx = true) :
    ∃ e w c, (performRequest W s url method post_field).2.sent.getLast? = some e ∧
      e.attempt = (W.perform w c).1 ∧
      cString (performRequest W s url method post_field).2.recv.local_response_buffer
        = received e.attempt.body := by
  refine requestLoop_rule
    (I := fun n err status s => (HttpRet.mk err status).is2xx = false ∧
      s.recv.local_response_buffer.length = HTTP_RECV_BUFFER_SIZE ∧
      ForAttempts W (fun c r a => a.succeeded = true → CleanStart c r a) url method post_field n s)
    (Q := fun ret s => ret.is2xx = true → ∃ e w c, s.sent.getLast? = some e ∧
      e.attempt = (W.perform w c).1 ∧
      cString s.recv.local_response_buffer = received e.attempt.body)
    ?_ ?_ ?_ ?_ 5 ESP_FAIL (-1) s ⟨rfl, hsize, hclean⟩ h2xx
  · rintro err status s ⟨hno, -, -⟩ hyes
    exact absurd hyes (by simp [hno])
  · rintro n err status s w ⟨hno, -, -⟩ - hyes
    exact absurd hyes (by simp [hno])
  · rintro n err status s c w ⟨-, hsize, hfor⟩ hset hs -
    have hstart : CleanStart c s.recv (W.perform w c).1 := by
      rw [ForAttempts, hset] at hfor
      exact hfor.1 hs
    have hok : (W.perform w c).1.err = ESP_OK := by
      simp only [Attempt.succeeded, decide_eq_true_eq] at hs
      exact hs.1
    refine ⟨⟨c, s.auth_token, (W.perform w c).1⟩, w, c, ?_, rfl, ?_⟩
    · simp [App.perform, App.close]
    · simp only [App.perform, App.close, hstart.1, if_true]
      exact cString_of_cleanStart (hW w c) hok hsize hstart
  · rintro n err status s c w ⟨-, hsize, hfor⟩ hset hs
    rw [ForAttempts, hset] at hfor
    refine ⟨hs, ?_, hfor.2 hs⟩
    rw [App.afterFailure_recv]
    exact App.length_perform_buffer (s := { s with world := w }) hsize c

/-- A request whose successful attempt starts clean leaves exactly its own body, and the
array keeps its size. -/
theorem performRequest_exact (hW : W.Legal) {url : Bytes} {method : Method} {post_field : Bytes}
    {s : App σ} (hsize : s.recv.local_response_buffer.length = HTTP_RECV_BUFFER_SIZE)
    (hclean : (ClientOp.request url method post_field).Clean W s) :
    (ClientOp.request url method post_field).Exact W s ∧
      (performRequest W s url method post_field).2.recv.local_response_buffer.length
        = HTTP_RECV_BUFFER_SIZE := by
  refine ⟨fun h2xx => ?_, length_performRequest_buffer hsize⟩
  obtain ⟨e, w, c, hlast, hattempt, htext⟩ :=
    performRequest_received hW.inOrder hsize hclean h2xx
  refine ⟨e, hlast, htext.trans ?_⟩
  rw [hattempt]
  exact cString_eq_self ((hW w c).2.take _)

/-- **Responses are exact in clean runs.** From the construction of a `FirebaseApp` on,
in every run whose successful attempts all start clean, every request that returns
`{ESP_OK, 2xx}` leaves exactly the first 16383 bytes of its own body in the array. -/
theorem responses_exact_of_clean (hW : W.Legal) (api_key buf : Bytes)
    (hbuf : buf.length = HTTP_RECV_BUFFER_SIZE) (w : σ) (ops : List ClientOp)
    (hclean : Along (ClientOp.exec W) (ClientOp.Clean W) (App.new W api_key buf w) ops) :
    Along (ClientOp.exec W) (ClientOp.Exact W) (App.new W api_key buf w) ops := by
  refine Along.of_invariant
    (I := fun s => s.recv.local_response_buffer.length = HTTP_RECV_BUFFER_SIZE) ?_ hbuf hclean
  rintro s (⟨url, method, post_field⟩ | -) hsize hc
  · exact performRequest_exact hW hsize hc
  · exact ⟨trivial, length_zeroed _⟩

end Runs

/-! ### A clean run and a stale one -/

/-- The world that answers by a script of attempts, one after the other; every setter
succeeds. -/
def scripted (script : ℕ → Attempt) (clock : ℕ → Int) (printReal : Bytes → Bytes) : World ℕ where
  init n _ := (true, n)
  setUrl n _ := (true, n)
  setMethod n _ := (true, n)
  setPostField n _ := (true, n)
  perform n _ := (script n, n + 1)
  time := clock
  printReal := printReal

/-- A response that comes in whole on a connection of its own. -/
def Attempt.fresh (err : EspErr) (status_code : Int) (body : Bytes) : Attempt :=
  ⟨[.onConnected, .headerSent, .onData body, .onFinish], err, status_code, false⟩

theorem Attempt.legal_fresh (err : EspErr) (status_code : Int) (body : Bytes) (connOpen : Bool) :
    (Attempt.fresh err status_code body).Legal connOpen := by
  refine .connected [] [.headerSent, .onData body] [.onFinish] rfl (by simp) ?_
    (Or.inr ⟨[], rfl, by simp⟩)
  intro e he
  simp only [List.mem_cons, List.not_mem_nil, or_false] at he
  rcases he with rfl | rfl
  · rfl
  · trivial

@[simp] theorem Attempt.body_fresh (err : EspErr) (status_code : Int) (body : Bytes) :
    (Attempt.fresh err status_code body).body = body := by
  simp [Attempt.body, Attempt.fresh, HttpEvent.data]

/-- A server that answers every request with status 200 and the body `ok`. -/
def okServer : World ℕ :=
  scripted (fun _ => .fresh ESP_OK 200 (ascii "ok")) (fun _ => 0) id

/-- A network on which every attempt fails before it is connected. -/
def offline : World ℕ :=
  scripted (fun _ => ⟨[.error, .disconnected], ESP_FAIL, -1, false⟩) (fun _ => 0) id

theorem responses_exact_of_clean_ok :
    Along (ClientOp.exec okServer) (ClientOp.Exact okServer)
      (App.new okServer (ascii "key") (zeroed HTTP_RECV_BUFFER_SIZE) 0)
      [.request (ascii "u") .get [], .clear] := by
  refine responses_exact_of_clean (fun _ _ => ⟨Attempt.legal_fresh _ _ _ _, ?_⟩) _ _
    (length_zeroed _) _ _ ⟨⟨fun _ => ⟨rfl, Or.inl ?_⟩, fun h => ?_⟩, trivial, trivial⟩
  · simp only [okServer, scripted, Attempt.body_fresh]
    decide
  · simp [okServer, scripted, Attempt.fresh]
  · exact absurd h (by decide)

/-- A server that answers the first request on a connection with status 500 and the body
`no`, leaves the connection open, and answers the next request on it with status 200 and
no body. -/
def keepAliveServer : World Unit where
  init _ _ := (true, ())
  setUrl _ _ := (true, ())
  setMethod _ _ := (true, ())
  setPostField _ _ := (true, ())
  perform _ c :=
    (if c.connOpen then ⟨[.headerSent, .onFinish], ESP_OK, 200, true⟩
      else ⟨[.onConnected, .headerSent, .onData (ascii "no"), .onFinish], ESP_OK, 500, true⟩, ())
  time _ := 0
  printReal := id

theorem keepAliveServer_legal : keepAliveServer.Legal := by
  intro w c
  cases hopen : c.connOpen with
  | false =>
      simp only [keepAliveServer, hopen, Bool.false_eq_true, if_false]
      refine ⟨.connected [] [.headerSent, .onData (ascii "no")] [.onFinish] rfl (by simp) ?_
        (Or.inr ⟨[], rfl, by simp⟩), by decide⟩
      simp [HttpEvent.Receiving, HttpEvent.silent]
  | true =>
      simp only [keepAliveServer, hopen, if_true]
      exact ⟨.reused [.headerSent] [.onFinish] rfl rfl
        (by simp [HttpEvent.Receiving, HttpEvent.silent]) (Or.inr ⟨[], rfl, by simp⟩), by decide⟩

/-- **A stale body.** The first attempt of the request fails with the body `no`; the
second goes on with its connection and succeeds with an empty body, and the array still
holds `no`. -/
theorem stale_body_kept :
    keepAliveServer.Legal ∧
      ¬ Along (ClientOp.exec keepAliveServer) (ClientOp.Exact keepAliveServer)
        (App.new keepAliveServer (ascii "key") (zeroed HTTP_RECV_BUFFER_SIZE) ())
        [.request (ascii "u") .get []] := by
  refine ⟨keepAliveServer_legal, fun h => ?_⟩
  obtain ⟨e, hlast, hbuf⟩ := h.1 rfl
  have hbody : e.attempt.body = [] := by
    have hans : some e.attempt.body = some [] := by
      rw [← Option.map_some (f := fun e : Exchange => e.attempt.body), ← hlast]
      rfl
    exact Option.some.inj hans
  rw [hbody] at hbuf
  exact absurd hbuf (by decide)

end PppAmb
