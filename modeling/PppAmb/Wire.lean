import PppAmb.Response

/-!
# What Goes on the Wire

The client handle lives as long as the `FirebaseApp`, and a setter that fails leaves the
previous URL, method or body in it. This module says what `performRequest` sends.

## Main results

* `credentials_performRequest`: a request changes no token and no URL of the app.
* `performRequest_sent`: a request records at most five new attempts, all made under the
  auth token the app holds.
* `carries_iff_settersHold`: all attempts carry the URL, the method and the body to be sent
  exactly when, at the first one, every setter succeeds or the handle already holds the value.
* `sends_as_called_iff`: all attempts carry what the request was called with exactly when,
  moreover, the body it was called with is the one to be sent; or no handle can be had, or the
  body is one that the handle still holds and that no setter takes out of it.
* `delete_sent_to_listing`: a `DELETE` of a child that goes to the listing of the root.
-/

namespace PppAmb

variable {σ : Type} {W : World σ}

/-! ### What a request leaves alone -/

@[simp] theorem App.toCredentials_perform (s : App σ) (c : Client) :
    (s.perform W c).2.toCredentials = s.toCredentials := rfl

@[simp] theorem App.toCredentials_close (s : App σ) : s.close.toCredentials = s.toCredentials := rfl

@[simp] theorem App.sent_close (s : App σ) : s.close.sent = s.sent := rfl

@[simp] theorem App.toCredentials_afterFailure (s : App σ) (method : Method) :
    (s.afterFailure W method).toCredentials = s.toCredentials := by
  rw [App.afterFailure]
  dsimp only
  split <;> rfl

@[simp] theorem App.sent_afterFailure (s : App σ) (method : Method) :
    (s.afterFailure W method).sent = s.sent := by
  rw [App.afterFailure]
  dsimp only
  split <;> rfl

@[simp] theorem App.sent_perform (s : App σ) (c : Client) :
    (s.perform W c).2.sent = s.sent ++ [⟨c, s.auth_token, (W.perform s.world c).1⟩] := rfl

/-- A request changes no token, no URL and no account of the app. -/
theorem credentials_performRequest (s : App σ) (url : Bytes) (method : Method)
    (post_field : Bytes) :
    (performRequest W s url method post_field).2.toCredentials = s.toCredentials := by
  refine requestLoop_rule (I := fun _ _ _ t => t.toCredentials = s.toCredentials)
    (Q := fun _ t => t.toCredentials = s.toCredentials) ?_ ?_ ?_ ?_ 5 ESP_FAIL (-1) s rfl
  · intro err status t h
    exact h
  · intro n err status t w h _
    exact h
  · intro n err status t c w h _ _
    rw [App.toCredentials_close, App.toCredentials_perform]
    exact h
  · intro n err status t c w h _ _
    rw [App.toCredentials_afterFailure, App.toCredentials_perform]
    exact h

/-! ### The settings of an attempt -/

/-- The body that is to be sent: `GET` and `DELETE` are sent without one. -/
def wantedBody (method : Method) (post_field : Bytes) : Bytes :=
  if method.hasBody then post_field else []

/-- The settings name this URL, method and body. -/
def Client.Carries (c : Client) (url : Bytes) (method : Method) (body : Bytes) : Prop :=
  c.url = url ∧ c.method = method ∧ c.post_field = body

@[simp] theorem Client.url_setHeader (c : Client) (header value : Bytes) :
    (c.setHeader header value).url = c.url := by
  rw [Client.setHeader]
  split <;> rfl

@[simp] theorem Client.method_setHeader (c : Client) (header value : Bytes) :
    (c.setHeader header value).method = c.method := by
  rw [Client.setHeader]
  split <;> rfl

@[simp] theorem Client.post_field_setHeader (c : Client) (header value : Bytes) :
    (c.setHeader header value).post_field = c.post_field := by
  rw [Client.setHeader]
  split <;> rfl

@[simp] theorem applyMethod_url (w : σ) (c : Client) (method : Method) :
    (applyMethod W w c method).1.url = c.url := by
  simp only [applyMethod]
  split <;> rfl

@[simp] theorem applyMethod_post_field (w : σ) (c : Client) (method : Method) :
    (applyMethod W w c method).1.post_field = c.post_field := by
  simp only [applyMethod]
  split <;> rfl

theorem applyMethod_method_iff (w : σ) (c : Client) (method : Method) :
    (applyMethod W w c method).1.method = method ↔
      (W.setMethod w method).1 = true ∨ c.method = method := by
  simp only [applyMethod]
  split <;> simp_all

@[simp] theorem applyPostField_url (w : σ) (c : Client) (data : Bytes) :
    (applyPostField W w c data).1.url = c.url := by
  simp only [applyPostField]
  split <;> rfl

@[simp] theorem applyPostField_method (w : σ) (c : Client) (data : Bytes) :
    (applyPostField W w c data).1.method = c.method := by
  simp only [applyPostField]
  split <;> rfl

theorem applyPostField_post_field_iff (w : σ) (c : Client) (data : Bytes) :
    (applyPostField W w c data).1.post_field = data ↔
      (W.setPostField w data).1 = true ∨ c.post_field = data := by
  simp only [applyPostField]
  split <;> simp_all

@[simp] theorem applyBody_url (w : σ) (c : Client) (method : Method) (post_field : Bytes) :
    (applyBody W w c method post_field).1.url = c.url := by
  simp only [applyBody]
  split <;> simp

/-- `applyBody` sets the wanted body, whatever the method is. -/
theorem carries_applyBody (w : σ) (c : Client) (url : Bytes) (method : Method)
    (post_field : Bytes) :
    (applyBody W w c method post_field).1.Carries url method (wantedBody method post_field) ↔
      c.url = url ∧ c.method = method ∧
        ((W.setPostField w (wantedBody method post_field)).1 = true ∨
          c.post_field = wantedBody method post_field) := by
  cases hb : method.hasBody <;>
    simp [applyBody, wantedBody, hb, Client.Carries, applyPostField_post_field_iff]

/-- Each of method and body is the wanted one if its setter succeeds, and the old one
otherwise. -/
theorem carries_applyBody_applyMethod (w : σ) (c : Client) (url : Bytes) (method : Method)
    (post_field : Bytes) :
    (applyBody W (applyMethod W w c method).2 (applyMethod W w c method).1 method
        post_field).1.Carries url method (wantedBody method post_field) ↔
      c.url = url ∧ ((W.setMethod w method).1 = true ∨ c.method = method) ∧
        ((W.setPostField (W.setMethod w method).2 (wantedBody method post_field)).1 = true ∨
          c.post_field = wantedBody method post_field) := by
  rw [carries_applyBody, applyMethod_url, applyMethod_method_iff, applyMethod_post_field]
  rfl

/-- **The setters hold**: at an attempt that starts in the world `w` with the given
handle, every setter succeeds or the handle already holds the value to be set. A handle
made on the spot holds the URL, the method `GET` and an empty body. -/
def SettersHold (W : World σ) (w : σ) (client : Option Client) (url : Bytes) (method : Method)
    (post_field : Bytes) : Prop :=
  match client with
  | none =>
      (W.init w url).1 = true →
        ((W.setMethod (W.init w url).2 method).1 = true ∨ method = .get) ∧
        ((W.setPostField (W.setMethod (W.init w url).2 method).2
          (wantedBody method post_field)).1 = true ∨ wantedBody method post_field = [])
  | some c =>
      ((W.setUrl w url).1 = true ∨ c.url = url) ∧
      ((W.setMethod (W.setUrl w url).2 method).1 = true ∨ c.method = method) ∧
      ((W.setPostField (W.setMethod (W.setUrl w url).2 method).2
        (wantedBody method post_field)).1 = true ∨ c.post_field = wantedBody method post_field)

/-- An attempt is made with the settings it should have exactly when the setters hold. -/
theorem carries_setUp_iff {w w' : σ} {client : Option Client} {c : Client} {url : Bytes}
    {method : Method} {post_field : Bytes}
    (h : setUp W w client url method post_field = (some c, w')) :
    c.Carries url method (wantedBody method post_field) ↔
      SettersHold W w client url method post_field := by
  cases client with
  | none =>
      rcases hinit : W.init w url with ⟨ok, w₁⟩
      cases ok with
      | false => simp [setUp, useClient, hinit] at h
      | true =>
          simp only [setUp, useClient, hinit, if_true, Prod.mk.injEq, Option.some.injEq] at h
          rw [← h.1, carries_applyBody_applyMethod, SettersHold, hinit]
          simp only [Client.fallback, true_and, forall_const, eq_comm (a := Method.get),
            eq_comm (a := ([] : Bytes))]
  | some c₀ =>
      rcases hurl : W.setUrl w url with ⟨ok, w₁⟩
      cases ok <;>
        simp only [setUp, useClient, hurl, Bool.false_eq_true, if_false, if_true, Prod.mk.injEq,
          Option.some.injEq] at h <;>
        rw [← h.1, carries_applyBody_applyMethod, SettersHold, hurl] <;>
        simp

/-- Once the handle carries the request, the setters hold at every later attempt. -/
theorem settersHold_of_carries {c : Client} {url : Bytes} {method : Method} {post_field : Bytes}
    (h : c.Carries url method (wantedBody method post_field)) (w : σ) :
    SettersHold W w (some c) url method post_field :=
  ⟨Or.inr h.1, Or.inr h.2.1, Or.inr h.2.2⟩

/-- The retry path leaves a handle that carries the request carrying it. -/
theorem settersHold_afterFailure {s : App σ} {c : Client} {url : Bytes} {method : Method}
    {post_field : Bytes} (hs : s.client = some c)
    (h : c.Carries url method (wantedBody method post_field)) :
    SettersHold W (s.afterFailure W method).world (s.afterFailure W method).client url method
      post_field := by
  simp only [App.afterFailure, App.readBuffer, hs]
  refine settersHold_of_carries ?_ _
  obtain ⟨hurl, hmethod, hbody⟩ := h
  cases hb : method.hasBody with
  | true =>
      simp only [prepareRetry, hb, if_true, Client.Carries, Client.url_setHeader,
        Client.method_setHeader, Client.post_field_setHeader]
      exact ⟨hurl, hmethod, hbody⟩
  | false =>
      have hwant : wantedBody method post_field = [] := by simp [wantedBody, hb]
      rw [hwant] at hbody ⊢
      simp only [prepareRetry, hb, Bool.false_eq_true, if_false, Client.Carries,
        Client.url_setHeader, Client.method_setHeader, Client.post_field_setHeader,
        applyPostField_url, applyPostField_method, applyPostField_post_field_iff]
      exact ⟨hurl, hmethod, Or.inr hbody⟩

/-! ### The attempts of a request -/

/-- A request only adds to the record of attempts, and adds at most one per round. -/
theorem requestLoop_sent (url : Bytes) (method : Method) (post_field : Bytes) (n : ℕ)
    (err : EspErr) (status : Int) (s : App σ) :
    ∃ es, (requestLoop W url method post_field n err status s).2.sent = s.sent ++ es ∧
      es.length ≤ n ∧ ∀ e ∈ es, e.auth_token = s.auth_token := by
  refine requestLoop_rule
    (I := fun k _ _ t => t.toCredentials = s.toCredentials ∧ ∃ es, t.sent = s.sent ++ es ∧
      es.length + k ≤ n ∧ ∀ e ∈ es, e.auth_token = s.auth_token)
    (Q := fun _ t => ∃ es, t.sent = s.sent ++ es ∧ es.length ≤ n ∧
      ∀ e ∈ es, e.auth_token = s.auth_token)
    ?_ ?_ ?_ ?_ n err status s ⟨rfl, [], by simp, by simp, by simp⟩
  · rintro err status t ⟨-, es, hes, hlen, htok⟩
    exact ⟨es, hes, hlen, htok⟩
  · rintro k err status t w ⟨-, es, hes, hlen, htok⟩ -
    exact ⟨es, hes, by omega, htok⟩
  · rintro k err status t c w ⟨hcred, es, hes, hlen, htok⟩ - -
    have htoken : t.auth_token = s.auth_token := congrArg Credentials.auth_token hcred
    refine ⟨es ++ [⟨c, t.auth_token, (W.perform w c).1⟩], ?_, ?_, ?_⟩
    · rw [App.sent_close, App.sent_perform, hes, List.append_assoc]
    · rw [List.length_append, List.length_singleton]
      omega
    · intro e he
      rcases List.mem_append.mp he with h | h
      · exact htok e h
      · rw [List.mem_singleton.mp h, htoken]
  · rintro k err status t c w ⟨hcred, es, hes, hlen, htok⟩ - -
    have htoken : t.auth_token = s.auth_token := congrArg Credentials.auth_token hcred
    refine ⟨by rw [App.toCredentials_afterFailure, App.toCredentials_perform]; exact hcred,
      es ++ [⟨c, t.auth_token, (W.perform w c).1⟩], ?_, ?_, ?_⟩
    · rw [App.sent_afterFailure, App.sent_perform, hes, List.append_assoc]
    · rw [List.length_append, List.length_singleton]
      omega
    · intro e he
      rcases List.mem_append.mp he with h | h
      · exact htok e h
      · rw [List.mem_singleton.mp h, htoken]

/-- The attempts a request makes. -/
def sentBy (W : World σ) (s : App σ) (url : Bytes) (method : Method) (post_field : Bytes) :
    List Exchange :=
  (performRequest W s url method post_field).2.sent.drop s.sent.length

/-- **The attempts of a request**: at most five, all made under the auth token the app
holds when the request is made. -/
theorem performRequest_sent (s : App σ) (url : Bytes) (method : Method) (post_field : Bytes) :
    (sentBy W s url method post_field).length ≤ 5 ∧
      ∀ e ∈ sentBy W s url method post_field, e.auth_token = s.auth_token := by
  obtain ⟨es, hes, hlen, htok⟩ := requestLoop_sent (W := W) url method post_field 5 ESP_FAIL (-1) s
  have hby : sentBy W s url method post_field = es := by
    rw [sentBy, performRequest, hes, List.drop_left]
  rw [hby]
  exact ⟨hlen, htok⟩

/-- If the setters hold at the first attempt, every attempt carries the request. -/
theorem carries_of_settersHold {s : App σ} {url : Bytes} {method : Method} {post_field : Bytes}
    (h : SettersHold W s.world s.client url method post_field) :
    ∀ e ∈ sentBy W s url method post_field,
      e.client.Carries url method (wantedBody method post_field) := by
  have hall : ∃ es, (performRequest W s url method post_field).2.sent = s.sent ++ es ∧
      ∀ e ∈ es, e.client.Carries url method (wantedBody method post_field) := by
    refine requestLoop_rule
      (I := fun _ _ _ t => SettersHold W t.world t.client url method post_field ∧
        ∃ es, t.sent = s.sent ++ es ∧
          ∀ e ∈ es, e.client.Carries url method (wantedBody method post_field))
      (Q := fun _ t => ∃ es, t.sent = s.sent ++ es ∧
        ∀ e ∈ es, e.client.Carries url method (wantedBody method post_field))
      ?_ ?_ ?_ ?_ 5 ESP_FAIL (-1) s ⟨h, [], by simp, by simp⟩
    · rintro err status t ⟨-, es, hes, hc⟩
      exact ⟨es, hes, hc⟩
    · rintro n err status t w ⟨-, es, hes, hc⟩ -
      exact ⟨es, hes, hc⟩
    · rintro n err status t c w ⟨hhold, es, hes, hc⟩ hset -
      refine ⟨es ++ [⟨c, t.auth_token, (W.perform w c).1⟩], ?_, ?_⟩
      · rw [App.sent_close, App.sent_perform, hes, List.append_assoc]
      · intro e he
        rcases List.mem_append.mp he with h | h
        · exact hc e h
        · rw [List.mem_singleton.mp h]
          exact (carries_setUp_iff hset).mpr hhold
    · rintro n err status t c w ⟨hhold, es, hes, hc⟩ hset -
      have hcarry := (carries_setUp_iff hset).mpr hhold
      refine ⟨settersHold_afterFailure (c := { c with connOpen := (W.perform w c).1.keepsOpen })
        rfl hcarry, es ++ [⟨c, t.auth_token, (W.perform w c).1⟩], ?_, ?_⟩
      · rw [App.sent_afterFailure, App.sent_perform, hes, List.append_assoc]
      · intro e he
        rcases List.mem_append.mp he with h | h
        · exact hc e h
        · rw [List.mem_singleton.mp h]
          exact hcarry
  obtain ⟨es, hes, hc⟩ := hall
  rw [sentBy, hes, List.drop_left]
  exact hc

/-- The first attempt of a request is made with the settings of `setUp`. -/
theorem first_mem_sentBy {s : App σ} {url : Bytes} {method : Method} {post_field : Bytes}
    {c : Client} {w : σ} (h : setUp W s.world s.client url method post_field = (some c, w)) :
    ⟨c, s.auth_token, (W.perform w c).1⟩ ∈ sentBy W s url method post_field := by
  rw [sentBy, performRequest, requestLoop, h]
  cases hs : (W.perform w c).1.succeeded with
  | true => simp [App.perform, App.close, hs]
  | false =>
      simp only [App.perform, hs, Bool.false_eq_true, if_false]
      obtain ⟨es, hes, -⟩ := requestLoop_sent (W := W) url method post_field 4
        (W.perform w c).1.err (W.perform w c).1.status_code
        ((({ s with world := w } : App σ).perform W c).2.afterFailure W method)
      simp only [App.perform, App.sent_afterFailure] at hes
      rw [hes, List.append_assoc, List.drop_left]
      exact List.mem_append_left _ (List.mem_singleton_self _)

/-- There is no handle for an attempt only if none is there and none can be made. -/
theorem setUp_eq_none {w w' : σ} {client : Option Client} {url : Bytes} {method : Method}
    {post_field : Bytes} (h : setUp W w client url method post_field = (none, w')) :
    client = none ∧ W.init w url = (false, w') := by
  cases client with
  | some c => exact absurd (congrArg Prod.fst h) (by simp [setUp, useClient])
  | none =>
      rcases hinit : W.init w url with ⟨ok, w₁⟩
      cases ok with
      | true => exact absurd (congrArg Prod.fst h) (by simp [setUp, useClient, hinit])
      | false =>
          simp only [setUp, useClient, hinit, Bool.false_eq_true, if_false, Prod.mk.injEq] at h
          exact ⟨rfl, by rw [h.2]⟩

/-- All attempts of a request carry its URL, its method and the body to be sent exactly when the
setters hold at the first one. -/
theorem carries_iff_settersHold (W : World σ) (s : App σ) (url : Bytes) (method : Method)
    (post_field : Bytes) :
    (∀ e ∈ sentBy W s url method post_field,
      e.client.Carries url method (wantedBody method post_field)) ↔
      SettersHold W s.world s.client url method post_field := by
  refine ⟨fun h => ?_, carries_of_settersHold⟩
  rcases hset : setUp W s.world s.client url method post_field with ⟨_ | c, w⟩
  · obtain ⟨hclient, hinit⟩ := setUp_eq_none hset
    rw [hclient]
    exact fun hyes => absurd hyes (by simp [hinit])
  · exact (carries_setUp_iff hset).mp (h _ (first_mem_sentBy hset))

/-! ### A body that is left over -/

/-- In front of an attempt the setter that empties the body fails. -/
def EmptyingFails (W : World σ) (url : Bytes) (method : Method) (w : σ) : Prop :=
  (W.setPostField (W.setMethod (W.setUrl w url).2 method).2 []).1 = false

/-- **A body is left over** at the next attempt of a `GET` or `DELETE`, and at the `n` attempts
that may follow it: the setter that empties it fails in front of each attempt, and behind each
one that is followed by another. -/
def BodyLeft (W : World σ) (url : Bytes) (method : Method) : ℕ → σ → Client → Prop
  | 0, w, _ => EmptyingFails W url method w
  | n + 1, w, c =>
      EmptyingFails W url method w ∧
        match setUp W w (some c) url method [] with
        | (none, _) => True
        | (some c, w) =>
            (W.perform w c).1.succeeded = true ∨
              (W.setPostField (W.perform w c).2 []).1 = false ∧
                BodyLeft W url method n (W.setPostField (W.perform w c).2 []).2
                  (prepareRetry W (W.perform w c).2
                    { c with connOpen := (W.perform w c).1.keepsOpen } method).1

/-- A `GET` or `DELETE` finds the body in the handle, and nothing takes it out. -/
def LeftOver (W : World σ) (s : App σ) (url : Bytes) (method : Method) (body : Bytes) : Prop :=
  ∃ c, s.client = some c ∧
    ((W.setUrl s.world url).1 = true ∨ c.url = url) ∧
    ((W.setMethod (W.setUrl s.world url).2 method).1 = true ∨ c.method = method) ∧
    c.post_field = body ∧ BodyLeft W url method 4 s.world c

/-- A request without a body does not look at the one it is called with. -/
theorem requestLoop_of_no_body {method : Method} (hb : method.hasBody = false)
    (url post_field : Bytes) (n : ℕ) (err : EspErr) (status : Int) (s : App σ) :
    requestLoop W url method post_field n err status s
      = requestLoop W url method [] n err status s := by
  have hset : ∀ w client,
      setUp W w client url method post_field = setUp W w client url method [] := by
    intro w client
    simp only [setUp, applyBody, hb, Bool.false_eq_true, if_false]
  induction n generalizing err status s with
  | zero => rfl
  | succ n ih =>
      rw [requestLoop, requestLoop, hset]
      simp only [ih]

/-- An attempt of a request without a body has the old one if emptying it fails. -/
theorem carries_leftover_iff {w w' : σ} {c c' : Client} {url : Bytes} {method : Method}
    {body : Bytes} (hb : method.hasBody = false) (hbody : body ≠ [])
    (h : setUp W w (some c) url method [] = (some c', w')) :
    c'.Carries url method body ↔
      ((W.setUrl w url).1 = true ∨ c.url = url) ∧
      ((W.setMethod (W.setUrl w url).2 method).1 = true ∨ c.method = method) ∧
      EmptyingFails W url method w ∧ c.post_field = body := by
  rcases hurl : W.setUrl w url with ⟨ok, w₁⟩
  rcases hmethod : W.setMethod w₁ method with ⟨ok', w₂⟩
  rcases hfield : W.setPostField w₂ [] with ⟨ok'', w₃⟩
  simp only [setUp, useClient, applyMethod, applyBody, applyPostField, hb, hurl, hmethod, hfield,
    Bool.false_eq_true, if_false, Prod.mk.injEq, Option.some.injEq] at h
  rw [← h.1]
  cases ok <;> cases ok' <;> cases ok'' <;>
    simp [Client.Carries, EmptyingFails, hurl, hmethod, hfield, Ne.symm hbody]

/-- A handle that is made on the spot holds no body. -/
theorem setUp_fallback {w w₁ : σ} {url : Bytes} {method : Method} (hb : method.hasBody = false)
    (hinit : W.init w url = (true, w₁)) (post_field : Bytes) :
    ∃ c w', setUp W w none url method post_field = (some c, w') ∧ c.post_field = [] := by
  refine ⟨_, _, by simp only [setUp, useClient, hinit, if_true]; rfl, ?_⟩
  simp only [applyBody, hb, Bool.false_eq_true, if_false, Client.post_field_setHeader,
    applyPostField_post_field_iff, applyMethod_post_field]
  exact Or.inr rfl

/-- Behind a failed attempt the handle keeps its URL and its method, and the body if emptying it
fails. -/
theorem carries_prepareRetry {c : Client} {url : Bytes} {method : Method} {body : Bytes}
    (hb : method.hasBody = false) (hbody : body ≠ []) (h : c.Carries url method body) (w : σ)
    (connOpen : Bool) :
    (prepareRetry W w { c with connOpen := connOpen } method).1.url = url ∧
      (prepareRetry W w { c with connOpen := connOpen } method).1.method = method ∧
      ((prepareRetry W w { c with connOpen := connOpen } method).1.post_field = body ↔
        (W.setPostField w []).1 = false) := by
  obtain ⟨hurl, hmethod, hfield⟩ := h
  rcases hset : W.setPostField w [] with ⟨ok, w'⟩
  cases ok <;>
    simp [prepareRetry, hb, applyPostField, hset, hurl, hmethod, hfield, Ne.symm hbody]

/-- The record of a request begins with its first attempt. -/
theorem sent_requestLoop_succ {s : App σ} {url : Bytes} {method : Method} {post_field : Bytes}
    {c : Client} {w : σ} (h : setUp W s.world s.client url method post_field = (some c, w)) (n : ℕ)
    (err : EspErr) (status : Int) {t : App σ}
    (ht : t = (({ s with world := w } : App σ).perform W c).2.afterFailure W method) :
    (requestLoop W url method post_field (n + 1) err status s).2.sent.drop s.sent.length
      = ⟨c, s.auth_token, (W.perform w c).1⟩ ::
        if (W.perform w c).1.succeeded then []
        else (requestLoop W url method post_field n (W.perform w c).1.err
          (W.perform w c).1.status_code t).2.sent.drop t.sent.length := by
  have hsent : t.sent = s.sent ++ [⟨c, s.auth_token, (W.perform w c).1⟩] := by
    rw [ht, App.sent_afterFailure, App.sent_perform]
  rw [requestLoop, h]
  cases hs : (W.perform w c).1.succeeded with
  | true => simp [App.perform, App.close, hs]
  | false =>
      obtain ⟨es, hes, -⟩ := requestLoop_sent (W := W) url method post_field n
        (W.perform w c).1.err (W.perform w c).1.status_code t
      have hloop : (({ s with world := w } : App σ).perform W c).2.afterFailure W method = t :=
        ht.symm
      simp only [App.perform, hs, Bool.false_eq_true, if_false] at hloop ⊢
      rw [hloop, hes, List.drop_left, hsent, List.append_assoc, List.drop_left]
      rfl

/-- All attempts of a `GET` or `DELETE` carry a body exactly when the handle holds it and it is
left over. -/
theorem requestLoop_leftover_iff {url : Bytes} {method : Method} {body : Bytes}
    (hb : method.hasBody = false) (hbody : body ≠ []) (n : ℕ) (err : EspErr) (status : Int)
    {s : App σ} {c : Client} (hc : s.client = some c) :
    (∀ e ∈ (requestLoop W url method [] (n + 1) err status s).2.sent.drop s.sent.length,
        e.client.Carries url method body) ↔
      ((W.setUrl s.world url).1 = true ∨ c.url = url) ∧
      ((W.setMethod (W.setUrl s.world url).2 method).1 = true ∨ c.method = method) ∧
      c.post_field = body ∧ BodyLeft W url method n s.world c := by
  induction n generalizing err status s c with
  | zero =>
      rcases hset : setUp W s.world s.client url method [] with ⟨_ | c', w⟩
      · exact absurd (setUp_eq_none hset).1 (by simp [hc])
      · rw [sent_requestLoop_succ hset 0 err status rfl]
        rw [hc] at hset
        have hrest : (if (W.perform w c').1.succeeded then ([] : List Exchange)
            else (requestLoop W url method [] 0 (W.perform w c').1.err
              (W.perform w c').1.status_code ((({ s with world := w } : App σ).perform W
              c').2.afterFailure W method)).2.sent.drop
                ((({ s with world := w } : App σ).perform W c').2.afterFailure W
                  method).sent.length) = [] := by
          split
          · rfl
          · rw [requestLoop, List.drop_length]
        rw [hrest, List.forall_mem_singleton, carries_leftover_iff hb hbody hset, BodyLeft]
        tauto
  | succ n ih =>
      rcases hset : setUp W s.world s.client url method [] with ⟨_ | c', w⟩
      · exact absurd (setUp_eq_none hset).1 (by simp [hc])
      · rw [sent_requestLoop_succ hset (n + 1) err status rfl, List.forall_mem_cons]
        rw [hc] at hset
        have hcarry := carries_leftover_iff hb hbody hset
        rw [hcarry, BodyLeft, hset]
        dsimp only
        cases hs : (W.perform w c').1.succeeded with
        | true =>
            simp only [if_true, List.not_mem_nil, false_implies, implies_true, true_or, and_true]
            tauto
        | false =>
            -- the handle of the next attempt is that of this one, emptied or not
            have hnext := ih (W.perform w c').1.err (W.perform w c').1.status_code
              (s := (({ s with world := w } : App σ).perform W c').2.afterFailure W method)
              (c := (prepareRetry W (W.perform w c').2
                { c' with connOpen := (W.perform w c').1.keepsOpen } method).1) rfl
            have hworld : ((({ s with world := w } : App σ).perform W c').2.afterFailure W
                method).world = (W.setPostField (W.perform w c').2 []).2 := by
              simp [App.perform, App.afterFailure, App.readBuffer, prepareRetry, applyPostField, hb]
            simp only [Bool.false_eq_true, if_false, false_or]
            rw [hnext, hworld]
            constructor
            · rintro ⟨⟨hurl, hmethod, hempty, hfield⟩, -, -, hkept, hrest⟩
              have hcarries := hcarry.mpr ⟨hurl, hmethod, hempty, hfield⟩
              have hfails := (carries_prepareRetry hb hbody hcarries _ _).2.2.mp hkept
              exact ⟨hurl, hmethod, hfield, hempty, hfails, hrest⟩
            · rintro ⟨hurl, hmethod, hfield, hempty, hfails, hrest⟩
              have hcarries := hcarry.mpr ⟨hurl, hmethod, hempty, hfield⟩
              obtain ⟨hurl', hmethod', hkept⟩ := carries_prepareRetry hb hbody hcarries
                (W.perform w c').2 (W.perform w c').1.keepsOpen
              exact ⟨⟨hurl, hmethod, hempty, hfield⟩, Or.inr hurl', Or.inr hmethod',
                hkept.mpr hfails, hrest⟩

/-- **What a request sends.** For every state of the app and of the world, all attempts of a
request carry the URL, the method and the body it was called with if and only if

* its first attempt finds every setter succeeding or the handle holding the value already, and
  the body is one to be sent: the method has a body, or it is empty;
* or no handle can be had, and no attempt is made;
* or a `GET` or `DELETE` is called with the very body that the handle still holds, and none of
  the setters that should empty it succeeds. -/
theorem sends_as_called_iff (W : World σ) (s : App σ) (url : Bytes) (method : Method)
    (post_field : Bytes) :
    (∀ e ∈ sentBy W s url method post_field, e.client.Carries url method post_field) ↔
      SettersHold W s.world s.client url method post_field ∧
          (method.hasBody = true ∨ post_field = []) ∨
        s.client = none ∧ (W.init s.world url).1 = false ∨
        method.hasBody = false ∧ post_field ≠ [] ∧ LeftOver W s url method post_field := by
  by_cases hwanted : method.hasBody = true ∨ post_field = []
  · have hbody : wantedBody method post_field = post_field := by
      rcases hwanted with hb | rfl
      · rw [wantedBody, if_pos hb]
      · exact ite_self []
    have hiff := carries_iff_settersHold W s url method post_field
    rw [hbody] at hiff
    rw [hiff]
    refine ⟨fun h => Or.inl ⟨h, hwanted⟩, ?_⟩
    rintro (⟨h, -⟩ | ⟨hnone, hinit⟩ | ⟨hb, hne, -⟩)
    · exact h
    · rw [hnone]
      exact fun hyes => absurd hyes (by simp [hinit])
    · rcases hwanted with hb' | hnil
      · exact absurd hb' (by simp [hb])
      · exact absurd hnil hne
  · obtain ⟨hb, hne⟩ := not_or.mp hwanted
    rw [Bool.not_eq_true] at hb
    cases hc : s.client with
    | some c =>
        have hloop : sentBy W s url method post_field
            = (requestLoop W url method [] 5 ESP_FAIL (-1) s).2.sent.drop s.sent.length := by
          rw [sentBy, performRequest, requestLoop_of_no_body hb]
        rw [hloop, requestLoop_leftover_iff hb hne 4 _ _ hc]
        simp [LeftOver, hc, hb, hne]
    | none =>
        rcases hinit : W.init s.world url with ⟨ok, w⟩
        cases ok with
        | false => simp [sentBy, performRequest, requestLoop, setUp, useClient, hc, hinit]
        | true =>
            -- a handle that is made on the spot holds no body
            refine iff_of_false (fun h => ?_) ?_
            · obtain ⟨c', w', hset, hempty⟩ := setUp_fallback hb hinit post_field
              rw [← hc] at hset
              have hcarries := h _ (first_mem_sentBy hset)
              exact hne (hcarries.2.2.symm.trans hempty)
            · simp [hb, hne, LeftOver, hc]

/-- A world whose URL parser rejects every URL with a space in it; all requests succeed. -/
def strictUrls : World Unit where
  init _ _ := (true, ())
  setUrl _ url := (!url.contains 32, ())
  setMethod _ _ := (true, ())
  setPostField _ _ := (true, ())
  perform _ _ := (.fresh ESP_OK 200 [], ())
  time _ := 0
  printReal := id

/-- **A `DELETE` of the root.** After the listing of `/h`, the `DELETE` of its child `a b`
goes to the URL of the listing. -/
theorem delete_sent_to_listing :
    ¬ ∀ e ∈ sentBy strictUrls
        (performRequest strictUrls
          (App.new strictUrls (ascii "key") (zeroed HTTP_RECV_BUFFER_SIZE) ())
          (ascii "https://db/h.json?shallow=true&auth=t") .get []).2
        (ascii "https://db/h/a b.json?writeSizeLimit=unlimited&auth=t") .delete [],
      e.client.Carries (ascii "https://db/h/a b.json?writeSizeLimit=unlimited&auth=t") .delete
        [] := by
  intro h
  have hfirst := h _ (first_mem_sentBy rfl)
  exact absurd hfirst.1 (by decide)

end PppAmb
