import PppAmb.ClientInvariant

/-!
# Timeouts

All requests share one handle. `deleteData` gives it a timeout of ten minutes, for its own
requests and for those that sign in again between them, and restores the default behind them.
This module says that nothing else is sent with the long timeout, whatever becomes of the
requests.

## Main results

* `graded_keepsLimit`: the operations that set no timeout keep to the one there is.
* `deleteData_restores`, `trimDays_restores`: behind a deletion the default is back.
* `calls_in_time`: the timeouts of all requests, in every run of the C interface.
-/

namespace PppAmb

variable {σ : Type} {W : World σ}

/-! ### Operations that set no timeout -/

/-- The handle, if there is one, waits no longer than `limit`. -/
def App.Limited (limit : Int) (s : App σ) : Prop :=
  ∀ c, s.client = some c → c.timeout_ms ≤ limit

/-- What is sent on the way from one state to the other is sent with a timeout of at most
`limit`. -/
def SentWithin (limit : Int) (s t : App σ) : Prop :=
  ∃ es, t.sent = s.sent ++ es ∧ ∀ e ∈ es, e.client.timeout_ms ≤ limit

theorem SentWithin.refl (limit : Int) (s : App σ) : SentWithin limit s s :=
  ⟨[], (List.append_nil _).symm, by simp⟩

theorem SentWithin.trans {limit : Int} {s t u : App σ} (h : SentWithin limit s t)
    (h' : SentWithin limit t u) : SentWithin limit s u := by
  obtain ⟨es, hes, hall⟩ := h
  obtain ⟨es', hes', hall'⟩ := h'
  refine ⟨es ++ es', by rw [hes', hes, List.append_assoc], fun e he => ?_⟩
  rcases List.mem_append.mp he with he | he
  · exact hall e he
  · exact hall' e he

theorem SentWithin.mono {limit limit' : Int} {s t : App σ} (h : SentWithin limit s t)
    (hle : limit ≤ limit') : SentWithin limit' s t := by
  obtain ⟨es, hes, hall⟩ := h
  exact ⟨es, hes, fun e he => (hall e he).trans hle⟩

/-- From a handle that keeps to the limit the operation keeps to it. -/
structure KeepsLimit (limit : Int) (s t : App σ) : Prop where
  default : t.default_timeout_ms = s.default_timeout_ms
  limited : s.Limited limit → t.Limited limit
  sent : s.Limited limit → SentWithin limit s t

/-- The handle of an attempt; a new one has the timeout of the library, five seconds. -/
theorem setUp_limited {limit : Int} (hlimit : 5000 ≤ limit) {w w' : σ} {client : Option Client}
    {c : Client} {url post_field : Bytes} {method : Method}
    (h : ∀ c, client = some c → c.timeout_ms ≤ limit)
    (hset : setUp W w client url method post_field = (some c, w')) : c.timeout_ms ≤ limit := by
  cases client with
  | some c₀ =>
      obtain ⟨c₁, hc₁, hsame⟩ := setUp_handle hset
      obtain rfl := Option.some.inj hc₁
      rw [hsame.timeout_ms]
      exact h c₀ rfl
  | none =>
      rw [setUp, useClient] at hset
      rcases hinit : W.init w url with ⟨_ | _, w₁⟩
      · simp [hinit] at hset
      · simp only [hinit, if_true, Prod.mk.injEq, Option.some.injEq] at hset
        obtain ⟨rfl, -⟩ := hset
        rw [(same_prepare w₁ (Client.fallback url) method post_field).timeout_ms]
        exact hlimit

theorem App.Limited.close {limit : Int} {s : App σ} (h : s.Limited limit) :
    s.close.Limited limit := by
  intro c' hc'
  simp only [App.close] at hc'
  obtain ⟨c, hc, rfl⟩ := Option.map_eq_some_iff.mp hc'
  exact h c hc

theorem App.Limited.afterFailure {limit : Int} {s : App σ} (h : s.Limited limit)
    (method : Method) : (s.afterFailure W method).Limited limit := by
  intro c' hc'
  simp only [App.afterFailure, App.readBuffer] at hc'
  split at hc'
  · rename_i hnone
    exact absurd (hnone.symm.trans hc') (by simp)
  · rename_i c hc
    obtain rfl := Option.some.inj hc'
    rw [(same_prepareRetry s.world c method).timeout_ms]
    exact h c hc

/-- A request keeps to the limit, with all its attempts. -/
theorem keepsLimit_performRequest {limit : Int} (hlimit : 5000 ≤ limit) (s : App σ) (url : Bytes)
    (method : Method) (post_field : Bytes) :
    KeepsLimit limit s (performRequest W s url method post_field).2 := by
  have hcred := credentials_performRequest (W := W) s url method post_field
  suffices hkeep : s.Limited limit →
      (performRequest W s url method post_field).2.Limited limit ∧
        SentWithin limit s (performRequest W s url method post_field).2 from
    ⟨congrArg Credentials.default_timeout_ms hcred, fun h => (hkeep h).1, fun h => (hkeep h).2⟩
  intro h
  have hattempt : ∀ {t : App σ} {c : Client} {w : σ}, t.Limited limit →
      SentWithin limit s t → setUp W t.world t.client url method post_field = (some c, w) →
      (({ t with world := w } : App σ).perform W c).2.Limited limit ∧
        SentWithin limit s (({ t with world := w } : App σ).perform W c).2 := by
    rintro t c w ht hsent hset
    have hc := setUp_limited hlimit ht hset
    refine ⟨fun c' hc' => ?_, hsent.trans ⟨_, App.sent_perform .., fun e he => ?_⟩⟩
    · obtain rfl := Option.some.inj hc'
      exact hc
    · obtain rfl := List.mem_singleton.mp he
      exact hc
  refine requestLoop_rule (I := fun _ _ _ t => t.Limited limit ∧ SentWithin limit s t)
    (Q := fun _ t => t.Limited limit ∧ SentWithin limit s t) ?_ ?_ ?_ ?_ 5 ESP_FAIL (-1) s
    ⟨h, .refl limit s⟩
  · exact fun _ _ _ ht => ht
  · exact fun _ _ _ _ _ ht _ => ht
  · rintro n err status t c w ⟨ht, hsent⟩ hset -
    obtain ⟨hlimited, hall⟩ := hattempt ht hsent hset
    exact ⟨hlimited.close, hall⟩
  · rintro n err status t c w ⟨ht, hsent⟩ hset -
    obtain ⟨hlimited, hall⟩ := hattempt ht hsent hset
    refine ⟨hlimited.afterFailure method, ?_⟩
    obtain ⟨es, hes, hle⟩ := hall
    exact ⟨es, by rw [App.sent_afterFailure, hes], hle⟩

/-- **Operations that set no timeout** keep to the one there is. -/
theorem graded_keepsLimit {limit : Int} (hlimit : 5000 ≤ limit) :
    Graded W fun _ => KeepsLimit limit where
  same h := by
    refine ⟨h.default_timeout_ms, fun hs => ?_, fun _ => ?_⟩
    · rw [App.Limited, h.client]
      exact hs
    · exact ⟨[], by rw [h.sent, List.append_nil], by simp⟩
  trans h h' := ⟨h'.default.trans h.default, h'.limited ∘ h.limited,
    fun hs => (h.sent hs).trans (h'.sent (h.limited hs))⟩
  mono h _ := h
  request s url method post_field := keepsLimit_performRequest hlimit s url method post_field
  setHeader s header value := by
    refine ⟨rfl, fun hs c hc => ?_, fun _ => .refl limit s⟩
    obtain ⟨c₀, hc₀, rfl⟩ := Option.map_eq_some_iff.mp hc
    rw [(Client.same_setHeader c₀ header value).timeout_ms]
    exact hs c₀ hc₀
  clear s := ⟨rfl, id, fun _ => .refl limit s⟩

/-! ### Deletions -/

/-- The handle waits no longer than the default, which lies between the timeout of the library and
that of a deletion. -/
structure App.OnTime (s : App σ) : Prop where
  low : 5000 ≤ s.default_timeout_ms
  high : s.default_timeout_ms ≤ LONG_TIMEOUT_MS
  limited : s.Limited s.default_timeout_ms

/-- The operation sends with timeouts of at most `limit`, and leaves the default behind. -/
structure KeptWithin (limit : Int) (s t : App σ) : Prop where
  default : t.default_timeout_ms = s.default_timeout_ms
  onTime : t.OnTime
  sent : SentWithin limit s t

theorem KeptWithin.trans {limit : Int} {s t u : App σ} (h : KeptWithin limit s t)
    (h' : KeptWithin limit t u) : KeptWithin limit s u :=
  ⟨h'.default.trans h.default, h'.onTime, h.sent.trans h'.sent⟩

theorem KeptWithin.refl {limit : Int} {s : App σ} (hs : s.OnTime) : KeptWithin limit s s :=
  ⟨rfl, hs, .refl limit s⟩

theorem KeptWithin.mono {limit limit' : Int} {s t : App σ} (h : KeptWithin limit s t)
    (hle : limit ≤ limit') : KeptWithin limit' s t :=
  ⟨h.default, h.onTime, h.sent.mono hle⟩

theorem KeepsLimit.keptWithin {s t : App σ} (hs : s.OnTime)
    (h : KeepsLimit s.default_timeout_ms s t) : KeptWithin s.default_timeout_ms s t := by
  refine ⟨h.default, ⟨?_, ?_, ?_⟩, h.sent hs.limited⟩
  · exact h.default.symm ▸ hs.low
  · exact h.default.symm ▸ hs.high
  · rw [h.default]
    exact h.limited hs.limited

/-- **A deletion** restores the default, whatever becomes of its requests. -/
theorem deleteData_restores {d d' : Rtdb σ} {path : CStr} {err : EspErr} (hd : d.app.OnTime)
    (hret : deleteData W d path = (some err, d')) : KeptWithin LONG_TIMEOUT_MS d.app d'.app := by
  have hg : Graded W fun _ => KeepsLimit LONG_TIMEOUT_MS := graded_keepsLimit (by decide)
  rw [deleteData] at hret
  set d₀ := d.onApp fun s => s.setHttpTimeoutMs LONG_TIMEOUT_MS with hd₀
  have hlong : d₀.app.Limited LONG_TIMEOUT_MS := by
    intro c hc
    obtain ⟨c₀, hc₀, rfl⟩ := Option.map_eq_some_iff.mp hc
    exact le_rfl
  have hrestore : ∀ {d₁ : Rtdb σ}, KeepsLimit LONG_TIMEOUT_MS d₀.app d₁.app →
      KeptWithin LONG_TIMEOUT_MS d.app
        (d₁.onApp App.restoreDefaultHttpTimeout).clearHTTPBuffer.app := by
    intro d₁ h₁
    have hdefault : d₁.app.default_timeout_ms = d.app.default_timeout_ms := h₁.default
    refine ⟨hdefault, ⟨hdefault.symm ▸ hd.low, hdefault.symm ▸ hd.high, fun c hc => ?_⟩,
      h₁.sent hlong⟩
    obtain ⟨c₀, hc₀, rfl⟩ := Option.map_eq_some_iff.mp hc
    exact le_rfl
  dsimp only at hret
  have hfirst := hg.deleteRequest d₀ ((deleteTarget d.base_database_url path).url d.app.auth_token)
  generalize d₀.setDeleteHeaders.performRequest W
    ((deleteTarget d.base_database_url path).url d.app.auth_token) .delete [] = first at hfirst hret
  split at hret
  · cases hrenew : first.2.renew (forceRefreshAuth W) with
    | none => simp [hrenew] at hret
    | some d₂ =>
        simp only [hrenew, Prod.mk.injEq] at hret
        obtain ⟨-, rfl⟩ := hret
        have hrenewed := Graded.renew (R := fun _ => KeepsLimit LONG_TIMEOUT_MS) (n := 3)
          hg.forceRefreshAuth hrenew
        exact hrestore (hg.trans (m := 4) (n := 1) (hg.trans (m := 1) (n := 3) hfirst hrenewed)
          (hg.deleteRequest d₂ ((deleteTarget d₂.base_database_url path).url d₂.app.auth_token)))
  · obtain ⟨-, rfl⟩ := Prod.mk.inj hret
    exact hrestore hfirst

theorem deleteDays_restores {root_path : CStr} {days : List Bytes} {d d' : Rtdb σ} {err : EspErr}
    (hd : d.app.OnTime) (hret : deleteDays W root_path days d = (some err, d')) :
    KeptWithin LONG_TIMEOUT_MS d.app d'.app := by
  induction days generalizing d with
  | nil =>
      obtain ⟨-, rfl⟩ := Prod.mk.inj hret
      exact .refl hd
  | cons day days ih =>
      rw [deleteDays] at hret
      rcases hday : deleteData W d (childPath root_path day) with ⟨_ | err', d₁⟩
      · simp [hday] at hret
      · simp only [hday] at hret
        have hfirst := deleteData_restores hd hday
        exact hfirst.trans (ih hfirst.onTime hret)

/-- **Trimming the days**: the listing is sent with the default, and each deletion restores it. -/
theorem trimDays_restores {d d' : Rtdb σ} {root_path : CStr} {max_days : Int} {err : EspErr}
    (hd : d.app.OnTime) (hret : trimDays W d root_path max_days = (some err, d')) :
    KeptWithin LONG_TIMEOUT_MS d.app d'.app := by
  have hg : Graded W fun _ => KeepsLimit d.app.default_timeout_ms := graded_keepsLimit hd.low
  have hkept : ∀ {t : App σ}, KeepsLimit d.app.default_timeout_ms d.app t →
      KeptWithin LONG_TIMEOUT_MS d.app t := fun hkeep =>
    (hkeep.keptWithin hd).mono hd.high
  rw [trimDays] at hret
  split at hret
  · obtain ⟨-, rfl⟩ := Prod.mk.inj hret
    exact .refl hd
  · have hlist := hg.dataRequest d
      ((shallowTarget d.base_database_url root_path).url d.app.auth_token) .get []
    dsimp only at hret
    generalize (d.setHeader (ascii "content-type") (ascii "application/json")).performRequest W
      ((shallowTarget d.base_database_url root_path).url d.app.auth_token) .get [] = list
      at hlist hret
    split at hret
    · obtain ⟨-, rfl⟩ := Prod.mk.inj hret
      exact hkept (hg.free (n := 1) hlist (hg.clear _))
    · have hparsed := hg.free (n := 1) hlist (hg.parseResponse list.2)
      rcases hparse : list.2.parseResponse with ⟨_ | days_obj, d₁⟩
      · simp [hparse] at hret
      · rw [hparse] at hparsed hret
        dsimp only at hret
        split at hret
        · obtain ⟨-, rfl⟩ := Prod.mk.inj hret
          exact hkept hparsed
        · split at hret
          · exact absurd (Prod.mk.inj hret).1 (by simp)
          · split at hret
            · obtain ⟨-, rfl⟩ := Prod.mk.inj hret
              exact hkept hparsed
            · exact (hkept hparsed).trans (deleteDays_restores (hkept hparsed).onTime hret)

/-! ### The C interface -/

/-- The attempts that have been made. -/
def Shim.sent (s : Shim σ) : List Exchange :=
  s.g_app.elim [] App.sent

/-- The handle of the app, if there is one, has the timeout that `firebaseClientInit` sets or the
one of the library. -/
def Shim.OnTime (s : Shim σ) : Prop :=
  ∀ app, s.g_app = some app → app.default_timeout_ms = 20000 ∧ app.OnTime

/-- The longest timeout of a call. -/
def ShimCall.limit : ShimCall → Int
  | .client (.delete _) | .client (.trimDays _ _) => LONG_TIMEOUT_MS
  | _ => 20000

/-- The requests of a call are sent with timeouts of at most its limit, and the short one is left
behind. -/
structure Shim.Kept (limit : Int) (before after : Shim σ) : Prop where
  onTime : after.OnTime
  sent : ∃ es, after.sent = before.sent ++ es ∧ ∀ e ∈ es, e.client.timeout_ms ≤ limit

/-- A call that returns keeps to its limit. -/
def ShimCall.InTime (W : World σ) (P : Privado) (s : Option (Shim σ)) (call : ShimCall) : Prop :=
  ∀ before r after, s = some before → call.run W P before = some (r, after) →
    Shim.Kept call.limit before after

variable {P : Privado} {before after : Shim σ} {r : Int}

theorem Shim.Kept.of_app {limit : Int} {app app' : App σ} (happ : before.g_app = some app)
    (happ' : after.g_app = some app') (hdefault : app.default_timeout_ms = 20000)
    (h : KeptWithin limit app app') : Shim.Kept limit before after := by
  refine ⟨fun app₁ happ₁ => ?_, ?_⟩
  · obtain rfl := Option.some.inj (happ'.symm.trans happ₁)
    exact ⟨h.default.trans hdefault, h.onTime⟩
  · rw [Shim.sent, Shim.sent, happ, happ']
    exact h.sent

theorem Shim.Kept.unchanged {limit : Int} (h : before.OnTime)
    (happ : after.g_app = before.g_app) : Shim.Kept limit before after := by
  refine ⟨fun app => ?_, [], ?_, by simp⟩
  · rw [happ]
    exact h app
  · rw [Shim.sent, Shim.sent, happ, List.append_nil]

/-- The functions that use the database client. -/
theorem onRtdb_kept {limit : Int} {f : Rtdb σ → Option Int × Rtdb σ} (h : before.OnTime)
    (hf : ∀ {d d' : Rtdb σ} {r : Int}, d.app.default_timeout_ms = 20000 → d.app.OnTime →
      f d = (some r, d') → KeptWithin limit d.app d'.app)
    (hret : before.onRtdb f = some (r, after)) : Shim.Kept limit before after := by
  cases hrtdb : before.g_rtdb with
  | none =>
      simp only [Shim.onRtdb, hrtdb, Option.some.injEq, Prod.mk.injEq] at hret
      exact .unchanged h (congrArg Shim.g_app hret.2.symm)
  | some base =>
      cases happ : before.g_app with
      | none =>
          simp only [Shim.onRtdb, hrtdb, happ, Option.some.injEq, Prod.mk.injEq] at hret
          exact .unchanged h (congrArg Shim.g_app hret.2.symm)
      | some app =>
          obtain ⟨hdefault, honTime⟩ := h app happ
          obtain ⟨d', hcall, -, happ'⟩ := onRtdb_eq_some hrtdb happ hret
          exact .of_app happ happ' hdefault (hf (d := ⟨base, app, []⟩) hdefault honTime hcall)

/-- The logins of a new app keep to the default. -/
theorem firebase_init_kept {buf : Bytes} (h : before.OnTime)
    (hret : firebase_init W P buf before = some (r, after)) : Shim.Kept 20000 before after := by
  rw [firebase_init] at hret
  split at hret
  · obtain ⟨-, rfl⟩ := Prod.mk.inj (Option.some.inj hret)
    exact .unchanged h rfl
  · rename_i hnone
    simp only [Option.bind_eq_bind, Option.bind_eq_some_iff] at hret
    obtain ⟨⟨err, app⟩, hlogin, hret⟩ := hret
    set new : App σ := { App.new W P.API_KEY buf before.world with
      user_account := ⟨P.USER_EMAIL, P.USER_PASSWORD⟩ }
    have hnew : new.OnTime := by
      have hlow : (5000 : Int) ≤ 20000 := by decide
      have hhigh : 20000 ≤ LONG_TIMEOUT_MS := by decide
      refine ⟨hlow, hhigh, fun c hc => ?_⟩
      have hclient : (if (W.init before.world Client.main.url).1 then some Client.main else none)
          = some c := hc
      split at hclient
      · obtain rfl := Option.some.inj hclient
        exact le_rfl
      · exact absurd hclient (by simp)
    have hkept : KeptWithin 20000 new app :=
      KeepsLimit.keptWithin hnew ((graded_keepsLimit hnew.low).firstLogin hlogin)
    have happ' : after.g_app = some app := by
      dsimp only at hret
      split at hret <;> obtain ⟨-, rfl⟩ := Prod.mk.inj (Option.some.inj hret) <;> rfl
    have happ : before.g_app = none := by simpa using hnone
    refine ⟨fun app₁ happ₁ => ?_, ?_⟩
    · obtain rfl := Option.some.inj (happ'.symm.trans happ₁)
      exact ⟨hkept.default, hkept.onTime⟩
    · rw [Shim.sent, Shim.sent, happ, happ']
      exact hkept.sent

theorem firebase_refresh_token_kept (h : before.OnTime)
    (hret : firebase_refresh_token W before = some (r, after)) :
    Shim.Kept 20000 before after := by
  cases happ : before.g_app with
  | none =>
      simp only [firebase_refresh_token, happ, Option.some.injEq, Prod.mk.injEq] at hret
      exact .unchanged h (congrArg Shim.g_app hret.2.symm)
  | some app =>
      obtain ⟨hdefault, honTime⟩ := h app happ
      obtain ⟨err, app', hcall, -, -, happ'⟩ := firebase_refresh_token_eq_some happ hret
      have hkept := KeepsLimit.keptWithin honTime
        ((graded_keepsLimit honTime.low).forceRefreshAuth hcall)
      rw [hdefault] at hkept
      exact .of_app happ happ' hdefault hkept

/-- Writes and trims keep to the default. -/
theorem sendData_kept {method : Method} {d d' : Rtdb σ} {path json_str : CStr}
    (hdefault : d.app.default_timeout_ms = 20000) (hd : d.app.OnTime)
    (hret : asInt (sendData W method d path json_str) = (some r, d')) :
    KeptWithin 20000 d.app d'.app := by
  obtain ⟨err, hsend, -⟩ := asInt_eq_some hret
  rw [← hdefault]
  exact KeepsLimit.keptWithin hd ((graded_keepsLimit hd.low).sendData hsend)

theorem ClientCall.kept {call : ClientCall} (h : before.OnTime)
    (hret : call.run W before = some (r, after)) :
    Shim.Kept (ShimCall.limit (.client call)) before after := by
  cases call with
  | push path json => exact onRtdb_kept h sendData_kept hret
  | putData path json => exact onRtdb_kept h sendData_kept hret
  | delete path =>
      refine onRtdb_kept (f := fun d => asInt (deleteData W d path)) h
        (fun {d d' r} _ hd hret => ?_) hret
      obtain ⟨err, hdelete, -⟩ := asInt_eq_some hret
      exact deleteData_restores hd hdelete
  | trimDays root_path max_days =>
      refine onRtdb_kept (f := fun d => asInt (PppAmb.trimDays W d root_path max_days)) h
        (fun {d d' r} _ hd hret => ?_) hret
      obtain ⟨err, htrim, -⟩ := asInt_eq_some hret
      exact trimDays_restores hd htrim
  | trimOldestBatch root_path batch_size =>
      refine onRtdb_kept (f := fun d => PppAmb.trimOldestBatch W d root_path batch_size) h
        (fun {d d' r} hdefault hd hret => ?_) hret
      have hkept := KeepsLimit.keptWithin hd ((graded_keepsLimit hd.low).trimOldestBatch hret)
      rw [hdefault] at hkept
      exact hkept

/-- **Only deletions take long.** In every run of calls of the C interface, whatever becomes of
the requests: behind every call the handle has no more than the short timeout, and all requests of
a call other than a deletion are sent with it; those of a deletion, the sign-in included, with at
most ten minutes. -/
theorem calls_in_time (W : World σ) (P : Privado) (w : σ) (calls : List ShimCall) :
    Along (ShimCall.exec W P) (ShimCall.InTime W P) (some (Shim.start w)) calls := by
  refine Along.of_step (I := fun s => ∀ before, s = some before → before.OnTime) ?_ calls ?_
  · intro s call hs
    have hkept : ∀ {before after : Shim σ} {r : Int}, s = some before →
        call.run W P before = some (r, after) → Shim.Kept call.limit before after := by
      rintro before after r rfl hret
      cases call with
      | init buf => exact firebase_init_kept (hs before rfl) hret
      | refreshToken => exact firebase_refresh_token_kept (hs before rfl) hret
      | client call => exact ClientCall.kept (hs before rfl) hret
    refine ⟨fun before r after => hkept, fun after hafter => ?_⟩
    obtain ⟨before, hbefore, hrun⟩ := Option.bind_eq_some_iff.mp hafter
    obtain ⟨⟨r, after'⟩, hret, rfl⟩ := Option.map_eq_some_iff.mp hrun
    exact (hkept hbefore hret).onTime
  · rintro before hbefore app happ
    obtain rfl := Option.some.inj hbefore
    exact absurd happ (by simp [Shim.start])

end PppAmb
