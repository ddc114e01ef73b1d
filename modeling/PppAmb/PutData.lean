import PppAmb.Writes

/-!
# `PUT` over a Sequence of Outcomes

`putData` is called an idempotent write: after it the database is as before, or as before with the
path set, and the latter if `ESP_OK` is returned. Here the database reads the location out of the
URL of the request, whatever URL the client has sent it to, and the network decides for each
attempt what it brings and whether the database gets to apply it. The URL parser of the HTTP
client decides which URLs can be set; `performRequest` does not look at its verdict.

## Main results

* `world_writes`, `world_sendsAsCalled`: with a URL that the parser accepts, a write goes
  where it should go.
* `performRequest_refused`, `performRequest_granted`: requests whose attempts are refused, and one
  whose first attempt is granted.
* `putData_keeps`: a second write of what is set leaves the database alone, also with a token that
  its URL cannot hold.
* `putsOnce_of_accepted`, `putsOnce_no_handle`: a `putData` that can be sent, or that has no handle
  to send with, is all or nothing.
* `putData_unaccepted`: one whose URL is not accepted may return `ESP_OK` without having set
  anything.
-/

namespace PppAmb

/-! ### Outcomes and databases -/

/-- **What becomes of an attempt**: what it brings, and whether the database gets to apply it. A
200 says that it was applied. -/
structure WriteOutcome where
  attempt : Attempt
  applied : Bool
  sound : attempt.err = ESP_OK → attempt.status_code = 200 → applied = true

/-- The state of what is outside: the outcomes of the attempts to come, and the database. -/
abbrev Outside (δ : Type) :=
  (ℕ → WriteOutcome) × δ

/-- **A database.** `node` is the location a path stands for, which has no question mark and no
hash in it; `other` is what it does at a location with methods other than `PUT`. Setting a
location twice is setting it once, and for every location and text there is a content that it
changes. -/
structure Database (Loc δ : Type) where
  node : Bytes → Option Loc
  set : δ → Loc → Bytes → δ
  other : Method → δ → Loc → Bytes → δ
  plain : ∀ path loc, node path = some loc → PathText path
  set_set : ∀ t loc json, set (set t loc json) loc json = set t loc json
  changes : ∀ loc json, ∃ t, set t loc json ≠ t

/-- **What is outside**: the database, the URL parser of the HTTP client, and two services of the C
library. -/
structure Service (Loc δ : Type) extends Database Loc δ where
  accepts : Bytes → Bool
  time : Outside δ → Int
  printReal : Bytes → Bytes

section World

variable {Loc δ : Type}

/-- The location that a URL names. -/
def Database.locate (D : Database Loc δ) (base url : Bytes) : Option Loc :=
  (pathIn base url).bind D.node

/-- What the database makes of a request. -/
def Database.apply (D : Database Loc δ) (base : Bytes) (c : Client) (t : δ) : δ :=
  match D.locate base c.url with
  | none => t
  | some loc =>
      if c.method = .put then D.set t loc c.post_field else D.other c.method t loc c.post_field

/-- **The world of a database** below `base`. The outcomes of the attempts come one after the
other; a handle can be made for, or set to, a URL that the parser accepts. -/
def Service.world (R : Service Loc δ) (base : Bytes) : World (Outside δ) where
  init w url := (R.accepts url, w)
  setUrl w url := (R.accepts url, w)
  setMethod w _ := (true, w)
  setPostField w _ := (true, w)
  perform w c :=
    ((w.1 0).attempt, fun n => w.1 (n + 1),
      if (w.1 0).applied then R.apply base c w.2 else w.2)
  time := R.time
  printReal := R.printReal

/-- `after` is `before` with the path set. -/
def Database.SetAt (D : Database Loc δ) (path json : Bytes) (before after : δ) : Prop :=
  ∃ loc, D.node path = some loc ∧ after = D.set before loc json

end World

/-- The URL of a `putData`. -/
def Rtdb.putUrl {σ : Type} (d : Rtdb σ) (path : CStr) : Bytes :=
  cString ((dataTarget d.base_database_url path).url d.app.auth_token)

/-- The client in another world. -/
def Rtdb.inWorld {σ : Type} (d : Rtdb σ) (w : σ) : Rtdb σ :=
  d.onApp fun s => { s with world := w }

section Property

variable {Loc δ : Type} (R : Service Loc δ) (base : Bytes) (d : Rtdb (Outside δ))
  (path json_str : CStr)

/-- If the call signs in again, the URL parser accepts its URL with the new token too. -/
def Service.RenewsAccepted : Prop :=
  ∀ ret d₁ d₂, d.sendOnce (R.world base) .put path json_str = (ret, d₁) → ret.is200 = false →
    ret.status_code = 401 → d₁.renew (forceRefreshAuth (R.world base)) = some d₂ →
      R.accepts (d₂.putUrl path) = true

/-- **The write can be sent**: the URL parser accepts its URL, with every token it is sent with,
and the path names a location; or there is no handle and none can be made. -/
def Service.Sendable : Prop :=
  (R.accepts (d.putUrl path) = true ∧ (R.node path.bytes).isSome = true ∧
    R.RenewsAccepted base d path json_str) ∨
      (d.app.client = none ∧ R.accepts (d.putUrl path) = false)

/-- The client after the call. -/
def Service.afterPut : Rtdb (Outside δ) :=
  (putData (R.world base) d path json_str).2

/-- What the call returns. -/
def Service.putReturns : Option EspErr :=
  (putData (R.world base) d path json_str).1

/-- **All or nothing.** After `putData` the database is as before or as before with the path set;
it is the latter if `ESP_OK` is returned; at most ten `PUT` requests are sent; and the same
`putData` after an `ESP_OK` changes nothing. -/
structure Service.PutsOnce : Prop where
  either : (R.afterPut base d path json_str).app.world.2 = d.app.world.2 ∨
    R.SetAt path.bytes json_str.bytes d.app.world.2 (R.afterPut base d path json_str).app.world.2
  done : R.putReturns base d path json_str = some ESP_OK →
    R.SetAt path.bytes json_str.bytes d.app.world.2 (R.afterPut base d path json_str).app.world.2
  few : ∃ es, (R.afterPut base d path json_str).app.sent = d.app.sent ++ es ∧
    (es.filter fun e => e.client.method = .put).length ≤ 10
  again : R.putReturns base d path json_str = some ESP_OK →
    (R.afterPut base (R.afterPut base d path json_str) path json_str).app.world.2
      = (R.afterPut base d path json_str).app.world.2

end Property

/-! ### The handle and its URL -/

section Handle

variable {Loc δ : Type} {R : Service Loc δ} {base url post_field : Bytes} {method : Method}

/-- The app has a handle that is set to the URL. -/
def App.Holds {σ : Type} (s : App σ) (url : Bytes) : Prop :=
  ∃ c, s.client = some c ∧ c.url = url

theorem App.Holds.setHeader {σ : Type} {s : App σ} {url : Bytes} (h : s.Holds url)
    (header value : Bytes) : (s.setHeader header value).Holds url := by
  obtain ⟨c, hc, hurl⟩ := h
  exact ⟨c.setHeader header value, by simp [App.setHeader, hc], by simp [hurl]⟩

/-- Only attempts use up outcomes. -/
theorem world_onlyAttempts : OnlyAttempts (R.world base) id :=
  ⟨fun _ _ => rfl, fun _ _ => rfl, fun _ _ => rfl, fun _ _ => rfl⟩

/-- An attempt goes to the URL of the request, or to that of the handle if it cannot be set. -/
theorem url_setUp {σ : Type} {W : World σ} {w w' : σ} {c c' : Client} {url post_field : Bytes}
    {method : Method} (hset : setUp W w (some c) url method post_field = (some c', w')) :
    c'.url = if (W.setUrl w url).1 then url else c.url := by
  rcases hurl : W.setUrl w url with ⟨ok, w₁⟩
  cases ok <;>
    simp only [setUp, useClient, hurl, Bool.false_eq_true, if_false, if_true, Prod.mk.injEq,
      Option.some.injEq] at hset <;>
    rw [← hset.1, applyBody_url, applyMethod_url] <;> rfl

/-- The retry path leaves the handle at its URL. -/
theorem App.Holds.afterFailure {σ : Type} {W : World σ} {s : App σ} {url : Bytes} (h : s.Holds url)
    (method : Method) : (s.afterFailure W method).Holds url := by
  obtain ⟨c, hc, hurl⟩ := h
  simp only [App.afterFailure, App.readBuffer, hc]
  refine ⟨_, rfl, ?_⟩
  rw [prepareRetry]
  split <;> simp [hurl]

/-- With a URL that the parser accepts, the setters hold. -/
theorem settersHold_world (h : R.accepts url = true)
    (w : Outside δ) (client : Option Client) (method : Method) (post_field : Bytes) :
    SettersHold (R.world base) w client url method post_field := by
  cases client with
  | none => exact fun _ => ⟨Or.inl rfl, Or.inl rfl⟩
  | some c => exact ⟨Or.inl h, Or.inl rfl, Or.inl rfl⟩

/-- **The handle is elsewhere**: it is set to a URL that names no location. -/
def Service.Away (R : Service Loc δ) (base : Bytes) (s : App (Outside δ)) : Prop :=
  ∃ held, s.Holds held ∧ R.locate base held = none

/-- A request with a URL that the parser accepts leaves the handle at this URL. -/
theorem performRequest_holds (h : R.accepts url = true) (s : App (Outside δ)) :
    (performRequest (R.world base) s url method post_field).2.Holds url := by
  have hmade : ∀ {w w' : Outside δ} {client : Option Client} {c : Client},
      setUp (R.world base) w client url method post_field = (some c, w') → c.url = url :=
    fun hset => ((carries_setUp_iff hset).mpr (settersHold_world h _ _ _ _)).1
  refine requestLoop_rule (I := fun n _ _ t => n = 5 ∨ t.Holds url) (Q := fun _ t => t.Holds url)
    ?_ ?_ ?_ ?_ 5 ESP_FAIL (-1) s (Or.inl rfl)
  · rintro err status t (hfive | hurl)
    · exact absurd hfive (by decide)
    · exact hurl
  · intro n err status t w _ hset
    have hinit : R.accepts url = false := congrArg Prod.fst (setUp_eq_none hset).2
    exact absurd h (by simp [hinit])
  · intro n err status t c w _ hset _
    have hurl := hmade hset
    exact ⟨{ c with connOpen := false }, rfl, hurl⟩
  · intro n err status t c w _ hset _
    have hurl := hmade hset
    exact Or.inr (App.Holds.afterFailure
      ⟨{ c with connOpen := ((R.world base).perform w c).1.keepsOpen }, rfl, hurl⟩ method)

/-- A request whose URL is not accepted, with the handle elsewhere, leaves the database alone. -/
theorem performRequest_away {s : App (Outside δ)} (haway : R.Away base s)
    (h : R.accepts url = false) :
    (performRequest (R.world base) s url method post_field).2.world.2 = s.world.2 := by
  obtain ⟨held, hheld, hnone⟩ := haway
  have hmade : ∀ {t : App (Outside δ)} {w : Outside δ} {c : Client}, t.Holds held →
      setUp (R.world base) t.world t.client url method post_field = (some c, w) →
        c.url = held := by
    rintro t w c ⟨c₀, hc₀, hurl⟩ hset
    rw [hc₀] at hset
    rw [url_setUp hset, if_neg (by simp [Service.world, h]), hurl]
  have hkeep : ∀ {w : Outside δ} {c : Client}, c.url = held →
      ((R.world base).perform w c).2.2 = w.2 := by
    intro w c hurl
    simp only [Service.world, Database.apply, hurl, hnone, ite_self]
  refine requestLoop_rule (I := fun _ _ _ t => t.world.2 = s.world.2 ∧ t.Holds held)
    (Q := fun _ t => t.world.2 = s.world.2) ?_ ?_ ?_ ?_ 5 ESP_FAIL (-1) s ⟨rfl, hheld⟩
  · exact fun _ _ _ ht => ht.1
  · rintro n err status t w ⟨ht, -⟩ hset
    obtain rfl : w = t.world := world_onlyAttempts.setUp hset
    exact ht
  · rintro n err status t c w ⟨ht, hheld⟩ hset -
    obtain rfl : w = t.world := world_onlyAttempts.setUp hset
    exact (hkeep (hmade hheld hset)).trans ht
  · rintro n err status t c w ⟨ht, hheld⟩ hset -
    have hurl := hmade hheld hset
    obtain rfl : w = t.world := world_onlyAttempts.setUp hset
    refine ⟨?_, App.Holds.afterFailure
      ⟨{ c with connOpen := ((R.world base).perform t.world c).1.keepsOpen }, rfl, hurl⟩
      method⟩
    exact (congrArg Prod.snd (world_onlyAttempts.afterFailure _)).trans ((hkeep hurl).trans ht)

end Handle

/-! ### A URL that is accepted -/

section Accepted

variable {Loc δ : Type} {R : Service Loc δ} {base path json_str : CStr} {login_url auth_url : Bytes}

/-- The requests that sign in go to URLs that the parser accepts and that name no location. -/
structure SignInElsewhere (R : Service Loc δ) (base : CStr) (login_url auth_url : Bytes) :
    Prop where
  accepted : ∀ url, url = login_url ∨ url = auth_url → R.accepts url = true
  elsewhere : ∀ url, url = login_url ∨ url = auth_url → R.locate base.bytes url = none

theorem world_signsIn (h : SignInElsewhere R base login_url auth_url) :
    SignsIn (R.world base.bytes) Prod.snd login_url auth_url where
  init _ _ := rfl
  setUrl _ _ := rfl
  setMethod _ _ := rfl
  setPostField _ _ := rfl
  holds w client url post_field hurl := settersHold_world (h.accepted url hurl) w client .post
    post_field
  signIn w c _ hurl := by
    simp only [Service.world, Database.apply, h.elsewhere c.url hurl, ite_self]

/-- A `PUT` for a path that names a location sets this location, if it is applied. -/
theorem world_writes (h : SignInElsewhere R base login_url auth_url) {loc : Loc}
    (hloc : R.node path.bytes = some loc) :
    Writes (R.world base.bytes) Prod.snd .put base path json_str
      (fun t => R.set t loc json_str.bytes) login_url auth_url where
  toSignsIn := world_signsIn h
  write w c query hmethod hnames hbody := by
    have hlocate : R.locate base.bytes c.url = some loc := by
      rw [Database.locate, pathIn_of_names (R.plain _ _ hloc) hnames, Option.bind_some, hloc]
    have happly : R.apply base.bytes c w.2 = R.set w.2 loc json_str.bytes := by
      simp only [Database.apply, hlocate, hmethod, if_true, hbody]
    simp only [Service.world, happly]
    refine ⟨?_, fun herr hstatus => by rw [(w.1 0).sound herr hstatus, if_pos rfl]⟩
    split
    · exact Or.inr rfl
    · exact Or.inl rfl

/-- A round keeps the URL. -/
theorem putUrl_sendOnce {σ : Type} {W : World σ} {method : Method} {d d' : Rtdb σ} {ret : HttpRet}
    (hsend : d.sendOnce W method path json_str = (ret, d')) : d'.putUrl path = d.putUrl path := by
  have hbase := (sendOnce_frame hsend).1
  have htoken : d'.app.auth_token = d.app.auth_token := by
    obtain ⟨-, rfl⟩ := Prod.mk.inj hsend
    exact congrArg Credentials.auth_token (credentials_performRequest ..)
  rw [Rtdb.putUrl, Rtdb.putUrl, hbase, htoken]

variable {d d' : Rtdb (Outside δ)} {r : Option EspErr}

theorem world_sendsAsCalled {base : Bytes} (h : R.accepts (d.putUrl path) = true)
    (hrenews : R.RenewsAccepted base d path json_str) :
    SendsAsCalled (R.world base) .put d path json_str where
  first := settersHold_world h _ _ _ _
  second hfirst hno h401 hrenew :=
    settersHold_world (hrenews _ _ _ hfirst hno h401 hrenew) _ _ _ _

end Accepted

/-! ### A second write -/

section Again

variable {Loc δ : Type} {R : Service Loc δ} {base path json_str : CStr} {s t : App (Outside δ)}
  {err : EspErr}

theorem getAuthToken_away (h : SignInElsewhere R base s.login_url s.auth_url)
    (hret : getAuthToken (R.world base.bytes) s = some (err, t)) : R.Away base.bytes t := by
  have haway : R.Away base.bytes (performRequest (R.world base.bytes) s.asJson s.asJson.auth_url
      .post (token_post_data s.asJson.refresh_token)).2 :=
    ⟨s.auth_url, performRequest_holds (h.accepted _ (Or.inr rfl)) _, h.elsewhere _ (Or.inr rfl)⟩
  simp only [getAuthToken] at hret
  generalize performRequest (R.world base.bytes) s.asJson s.asJson.auth_url .post
    (token_post_data s.asJson.refresh_token) = r at haway hret
  split at hret
  · simp only [Option.bind_eq_bind, Option.bind_eq_some_iff, Option.some.injEq,
      Prod.mk.injEq] at hret
    obtain ⟨⟨token, life⟩, -, -, rfl⟩ := hret
    exact haway
  · simp only [Option.some.injEq, Prod.mk.injEq] at hret
    exact hret.2 ▸ haway

theorem getRefreshToken_away (h : SignInElsewhere R base s.login_url s.auth_url)
    (hret : getRefreshToken (R.world base.bytes) s false = some (err, t)) :
    R.Away base.bytes t := by
  have haway : R.Away base.bytes (performRequest (R.world base.bytes) s.asJson s.asJson.login_url
      .post (account_json s.asJson.user_account)).2 :=
    ⟨s.login_url, performRequest_holds (h.accepted _ (Or.inl rfl)) _, h.elsewhere _ (Or.inl rfl)⟩
  simp only [getRefreshToken, Bool.false_eq_true, if_false] at hret
  generalize performRequest (R.world base.bytes) s.asJson s.asJson.login_url .post
    (account_json s.asJson.user_account) = r at haway hret
  split at hret
  · simp only [Option.bind_eq_bind, Option.bind_eq_some_iff, Option.some.injEq,
      Prod.mk.injEq] at hret
    obtain ⟨token, -, -, rfl⟩ := hret
    exact haway
  · simp only [Option.some.injEq, Prod.mk.injEq] at hret
    exact hret.2 ▸ haway

/-- The requests that sign in keep their URLs. -/
theorem SignInElsewhere.next (h : SignInElsewhere R base s.login_url s.auth_url)
    (hst : LeavesDb (Prod.snd : Outside δ → δ) s t) :
    SignInElsewhere R base t.login_url t.auth_url := by
  rw [hst.login_url, hst.auth_url]
  exact h

theorem loginUserAccount_away {account : UserAccount}
    (h : SignInElsewhere R base s.login_url s.auth_url)
    (hret : loginUserAccount (R.world base.bytes) s account = some (err, t)) :
    R.Away base.bytes t := by
  simp only [loginUserAccount, signIn, Option.bind_eq_bind, Option.bind_eq_some_iff] at hret
  obtain ⟨⟨err₁, s₁⟩, hrefresh, hret⟩ := hret
  have haccount : SignInElsewhere R base ({ s with user_account := account } : App _).login_url
    ({ s with user_account := account } : App _).auth_url := h
  have h₁ := getRefreshToken_away haccount hrefresh
  have hleaves := getRefreshToken_leavesDb (world_signsIn haccount) hrefresh
  dsimp only at hret
  split at hret
  · simp only [Option.some.injEq, Prod.mk.injEq] at hret
    exact hret.2 ▸ h₁
  · simp only [Option.bind_eq_some_iff] at hret
    obtain ⟨⟨err₂, s₂⟩, hauth, hret⟩ := hret
    have h₁' : SignInElsewhere R base s₁.login_url s₁.auth_url := haccount.next hleaves
    have h₂ := getAuthToken_away (s := s₁.clearHTTPBuffer) h₁' hauth
    dsimp only at hret
    split at hret
    · simp only [Option.some.injEq, Prod.mk.injEq] at hret
      exact hret.2 ▸ h₂
    · simp only [Option.some.injEq, Prod.mk.injEq] at hret
      exact hret.2 ▸ h₂

/-- **Signing in again** leaves the handle elsewhere. -/
theorem forceRefreshAuth_away (h : SignInElsewhere R base s.login_url s.auth_url)
    (hret : forceRefreshAuth (R.world base.bytes) s = some (err, t)) : R.Away base.bytes t := by
  simp only [forceRefreshAuth, Option.bind_eq_bind, Option.bind_eq_some_iff] at hret
  obtain ⟨⟨err₁, s₁⟩, hauth, hret⟩ := hret
  have haway := getAuthToken_away h hauth
  have hleaves := getAuthToken_leavesDb (world_signsIn h) hauth
  dsimp only at hret
  split at hret
  · simp only [Option.some.injEq, Prod.mk.injEq] at hret
    exact hret.2 ▸ haway
  · exact loginUserAccount_away (h.next hleaves) hret

variable {d d' : Rtdb (Outside δ)} {loc : Loc}

/-- Where the location is set already, a round leaves the database alone, if it goes to its own
URL or the handle is elsewhere. -/
theorem sendOnce_keeps (hsign : SignInElsewhere R base d.app.login_url d.app.auth_url)
    (hbase : d.base_database_url = base) (hloc : R.node path.bytes = some loc)
    (hset : R.set d.app.world.2 loc json_str.bytes = d.app.world.2)
    (hurl : R.accepts (d.putUrl path) = true ∨ R.Away base.bytes d.app) {ret : HttpRet}
    (hsend : d.sendOnce (R.world base.bytes) .put path json_str = (ret, d')) :
    d'.app.world.2 = d.app.world.2 := by
  subst hbase
  cases haccepts : R.accepts (d.putUrl path) with
  | true =>
      have hround := (world_writes hsign hloc).put_round
        (fun t => R.set_set t loc json_str.bytes) (settersHold_world haccepts _ _ _ _)
        (Or.inl rfl) hsend
      exact hround.1.elim id fun h => h.trans hset
  | false =>
      obtain ⟨held, hheld, hnone⟩ := hurl.resolve_left (by simp [haccepts])
      obtain ⟨-, rfl⟩ := Prod.mk.inj hsend
      exact performRequest_away ⟨held, hheld.setHeader _ _, hnone⟩ haccepts

/-- **A second `putData`** leaves the database alone, whatever becomes of its attempts: if it signs
in again and its URL is not accepted any more, its second round goes elsewhere. -/
theorem putData_keeps (hsign : SignInElsewhere R d.base_database_url d.app.login_url d.app.auth_url)
    (haccepts : R.accepts (d.putUrl path) = true) (hloc : R.node path.bytes = some loc)
    (hset : R.set d.app.world.2 loc json_str.bytes = d.app.world.2) :
    (R.afterPut d.base_database_url.bytes d path json_str).app.world.2 = d.app.world.2 := by
  have hpath : SendPath (R.world d.base_database_url.bytes) .put d path json_str
      (R.putReturns d.base_database_url.bytes d path json_str)
      (R.afterPut d.base_database_url.bytes d path json_str) := sendData_path rfl
  have hround : ∀ {ret : HttpRet} {d₁ : Rtdb (Outside δ)},
      d.sendOnce (R.world d.base_database_url.bytes) .put path json_str = (ret, d₁) →
        d₁.app.world.2 = d.app.world.2 :=
    fun hsend => sendOnce_keeps hsign rfl hloc hset (Or.inl haccepts) hsend
  generalize R.afterPut d.base_database_url.bytes d path json_str = d₃ at hpath ⊢
  generalize R.putReturns d.base_database_url.bytes d path json_str = r at hpath
  cases hpath with
  | once hfirst _ =>
      have hkept := hround hfirst
      exact hkept
  | stopped hfirst _ _ _ => exact hround hfirst
  | @twice ret ret' d₁ d₂ d₃ hfirst _ _ hrenew hsecond =>
      obtain ⟨hbase₁, hlogin₁, hauth₁⟩ := sendOnce_frame hfirst
      have hsign₁ : SignInElsewhere R d.base_database_url d₁.app.login_url d₁.app.auth_url := by
        rw [hlogin₁, hauth₁]
        exact hsign
      obtain ⟨hleaves, hbase₂⟩ := (world_signsIn hsign₁).renew hrenew
      have hsame := hleaves.same.trans (hround hfirst)
      have haway : R.Away d.base_database_url.bytes d₂.app := by
        simp only [Rtdb.renew, Option.map_eq_some_iff] at hrenew
        obtain ⟨⟨err, app⟩, hcall, rfl⟩ := hrenew
        exact forceRefreshAuth_away hsign₁ hcall
      have hkept := sendOnce_keeps (hsign₁.next hleaves) (hbase₂.trans hbase₁) hloc
        (by rw [hsame, hset]) (Or.inr haway) hsecond
      exact hkept.trans hsame

end Again

/-! ### All or nothing -/

section Once

variable {Loc δ : Type} {R : Service Loc δ} {path json_str : CStr} {d d' : Rtdb (Outside δ)}
  {r : Option EspErr}

/-- After the call the parser accepts its URL still. -/
theorem SendPath.still_accepted {base : Bytes} (h : R.accepts (d.putUrl path) = true)
    (hrenews : R.RenewsAccepted base d path json_str)
    (hpath : SendPath (R.world base) .put d path json_str r d') :
    R.accepts (d'.putUrl path) = true := by
  cases hpath with
  | once hfirst _ => exact (congrArg R.accepts (putUrl_sendOnce hfirst)).trans h
  | stopped hfirst _ _ _ => exact (congrArg R.accepts (putUrl_sendOnce hfirst)).trans h
  | twice hfirst hno h401 hrenew hsecond =>
      exact (congrArg R.accepts (putUrl_sendOnce hsecond)).trans
        (hrenews _ _ _ hfirst hno h401 hrenew)

/-- **All or nothing**, if the parser accepts the URL and the path names a location. -/
theorem putsOnce_of_accepted
    (hsign : SignInElsewhere R d.base_database_url d.app.login_url d.app.auth_url)
    (haccepts : R.accepts (d.putUrl path) = true) {loc : Loc} (hloc : R.node path.bytes = some loc)
    (hrenews : R.RenewsAccepted d.base_database_url.bytes d path json_str) :
    R.PutsOnce d.base_database_url.bytes d path json_str := by
  have hidem : ∀ t, R.set (R.set t loc json_str.bytes) loc json_str.bytes
      = R.set t loc json_str.bytes := fun t => R.set_set t loc json_str.bytes
  have hwrites : Writes (R.world d.base_database_url.bytes) Prod.snd .put d.base_database_url path
      json_str (fun t => R.set t loc json_str.bytes) d.app.login_url d.app.auth_url :=
    world_writes hsign hloc
  have hpath : SendPath (R.world d.base_database_url.bytes) .put d path json_str
      (R.putReturns d.base_database_url.bytes d path json_str)
      (R.afterPut d.base_database_url.bytes d path json_str) := sendData_path rfl
  have hhold := world_sendsAsCalled haccepts hrenews
  obtain ⟨heither, hdone⟩ := hwrites.put hidem hhold hpath
  refine ⟨heither.imp_right fun hset => ⟨loc, hloc, hset⟩, fun hok => ⟨loc, hloc, hdone hok⟩,
    hwrites.toSignsIn.sent_le (by decide) hhold hpath, fun hok => ?_⟩
  obtain ⟨hbase, hlogin, hauth⟩ := hwrites.toSignsIn.frame hpath
  have hset := hdone hok
  have hsign' : SignInElsewhere R
      (R.afterPut d.base_database_url.bytes d path json_str).base_database_url
      (R.afterPut d.base_database_url.bytes d path json_str).app.login_url
      (R.afterPut d.base_database_url.bytes d path json_str).app.auth_url := by
    rw [hbase, hlogin, hauth]
    exact hsign
  have hset' : R.set (R.afterPut d.base_database_url.bytes d path json_str).app.world.2 loc
      json_str.bytes = (R.afterPut d.base_database_url.bytes d path json_str).app.world.2 := by
    rw [hset]
    exact hidem _
  have hkeeps := putData_keeps hsign' (hpath.still_accepted haccepts hrenews) hloc hset'
  rwa [hbase] at hkeeps

end Once

/-! ### Outcomes that are refused or granted -/

section Scripts

variable {Loc δ : Type} {R : Service Loc δ} {base : Bytes}

/-- A request that is answered with a 401 and not applied. -/
def WriteOutcome.refused : WriteOutcome :=
  ⟨.fresh ESP_OK 401 [], false, fun _ hstatus => absurd hstatus (by decide)⟩

/-- A request that is answered with a 200 and applied. -/
def WriteOutcome.granted : WriteOutcome :=
  ⟨.fresh ESP_OK 200 [], true, fun _ _ => rfl⟩

/-- The URL a request goes to: its own if the parser accepts it, else the one of the handle. -/
def Service.sentTo (R : Service Loc δ) (url held : Bytes) : Bytes :=
  if R.accepts url then url else held

theorem Service.sentTo_sentTo (url held : Bytes) :
    R.sentTo url (R.sentTo url held) = R.sentTo url held := by
  rw [Service.sentTo, Service.sentTo]
  split <;> rfl

/-- **A request that is refused** five times uses up five outcomes, and leaves the handle at the
URL it went to. -/
structure Refused (s t : App (Outside δ)) (url : Bytes) : Prop where
  world : t.world = (fun i => s.world.1 (i + 5), s.world.2)
  credentials : t.toCredentials = s.toCredentials
  holds : t.Holds url

theorem performRequest_refused (R : Service Loc δ) (base : Bytes) {s : App (Outside δ)}
    {held : Bytes} (hs : ∀ i < 5, s.world.1 i = .refused) (hheld : s.Holds held) (url : Bytes)
    (method : Method) (post_field : Bytes) :
    (performRequest (R.world base) s url method post_field).1
        = ⟨ESP_OK, 401⟩ ∧
      Refused s (performRequest (R.world base) s url method post_field).2
        (R.sentTo url held) := by
  set W := R.world base with hW
  refine requestLoop_rule
    (I := fun n err status t => n ≤ 5 ∧ t.world = (fun i => s.world.1 (i + (5 - n)), s.world.2) ∧
      t.toCredentials = s.toCredentials ∧ (n < 5 → err = ESP_OK ∧ status = 401) ∧
      ∃ u, t.Holds u ∧ R.sentTo url u = R.sentTo url held ∧
        (n < 5 → u = R.sentTo url held))
    (Q := fun ret t => ret = ⟨ESP_OK, 401⟩ ∧ Refused s t (R.sentTo url held))
    ?_ ?_ ?_ ?_ 5 ESP_FAIL (-1) s
    ⟨le_rfl, rfl, rfl, fun h => absurd h (by omega), held, hheld, rfl, fun h => absurd h (by omega)⟩
  · rintro err status t ⟨-, hworld, hcred, hlast, u, hu, -, hurl⟩
    obtain ⟨rfl, rfl⟩ := hlast (by omega)
    exact ⟨rfl, hworld, hcred, hurl (by omega) ▸ hu⟩
  · rintro n err status t w ⟨-, -, -, -, u, ⟨c, hc, -⟩, -⟩ hset
    exact absurd (setUp_eq_none hset).1 (by simp [hc])
  · rintro n err status t c w ⟨hn, hworld, -⟩ hset hsucc
    have hw : w = t.world := world_onlyAttempts.setUp hset
    have hrefused : w.1 0 = .refused := by
      rw [hw, hworld]
      exact hs _ (by omega)
    simp only [hW, Service.world, hrefused] at hsucc
    exact absurd hsucc (by decide)
  · rintro n err status t c w ⟨hn, hworld, hcred, -, u, ⟨c₀, hc₀, hu₀⟩, hsent, -⟩ hset -
    have hw : w = t.world := world_onlyAttempts.setUp hset
    have hrefused : w.1 0 = .refused := by
      rw [hw, hworld]
      exact hs _ (by omega)
    have hattempt : W.perform w c = (WriteOutcome.refused.attempt, fun i => w.1 (i + 1), w.2) := by
      simp only [hW, Service.world, hrefused, WriteOutcome.refused, Bool.false_eq_true, if_false]
    rw [hc₀] at hset
    have hurl : c.url = R.sentTo url held := by
      rw [← hsent, ← hu₀]
      exact url_setUp hset
    refine ⟨by omega, ?_, ?_, fun _ => ?_, _, ?_, R.sentTo_sentTo url held, fun _ => rfl⟩
    · have hafter : ((({ t with world := w } : App _).perform W c).2.afterFailure W method).world
          = (W.perform w c).2 := world_onlyAttempts.afterFailure _
      rw [hafter, hattempt, hw, hworld]
      have hnext : ∀ i, i + 1 + (5 - (n + 1)) = i + (5 - n) := fun i => by omega
      simp only [hnext]
    · rw [App.toCredentials_afterFailure, App.toCredentials_perform]
      exact hcred
    · rw [hattempt]
      exact ⟨rfl, rfl⟩
    · exact App.Holds.afterFailure
        ⟨{ c with connOpen := (W.perform w c).1.keepsOpen }, rfl, hurl⟩ method

/-- **A request whose first attempt is granted** returns 200, and the database has what it makes of
this attempt. -/
theorem performRequest_granted {s : App (Outside δ)} (hs : s.world.1 0 = .granted)
    {url post_field : Bytes} {method : Method} {c : Client} {w : Outside δ}
    (hset : setUp (R.world base) s.world s.client url method post_field
      = (some c, w)) :
    (performRequest (R.world base) s url method post_field).1
        = ⟨ESP_OK, 200⟩ ∧
      (performRequest (R.world base) s url method post_field).2.world.2
        = R.apply base c s.world.2 := by
  have hw : w = s.world := world_onlyAttempts.setUp hset
  have hattempt : (R.world base).perform s.world c
      = (WriteOutcome.granted.attempt, fun i => s.world.1 (i + 1), R.apply base c s.world.2) := by
    simp only [Service.world, hs, WriteOutcome.granted, if_true]
  have hsucc : WriteOutcome.granted.attempt.succeeded = true := by decide
  rw [performRequest, requestLoop, hset, hw]
  simp only [App.perform, hattempt, hsucc, if_true]
  exact ⟨rfl, rfl⟩

/-! ### A URL that is not accepted -/

variable {d : Rtdb (Outside δ)} {path json_str : CStr}

/-- The script of a write that is refused, with both attempts to sign in again refused too, and
granted in its second round. -/
def lateGrant (i : ℕ) : WriteOutcome :=
  if i < 15 then .refused else .granted

theorem getAuthToken_refused (R : Service Loc δ) (base : Bytes) {s : App (Outside δ)}
    {held : Bytes} (hs : ∀ i < 5, s.world.1 i = .refused) (hheld : s.Holds held) :
    ∃ t, getAuthToken (R.world base) s = some (ESP_FAIL, t) ∧
      Refused s t (R.sentTo s.auth_url held) := by
  obtain ⟨hret, hleft⟩ := performRequest_refused R base (s := s.asJson) hs (hheld.setHeader _ _)
    s.auth_url .post (token_post_data s.refresh_token)
  have hno : ¬ (HttpRet.mk ESP_OK 401).is200 = true := by decide
  rw [← hret] at hno
  exact ⟨_, if_neg hno, hleft.world, hleft.credentials, hleft.holds⟩

theorem getRefreshToken_refused (R : Service Loc δ) (base : Bytes) {s : App (Outside δ)}
    {held : Bytes} (hs : ∀ i < 5, s.world.1 i = .refused) (hheld : s.Holds held) :
    ∃ t, getRefreshToken (R.world base) s false = some (ESP_FAIL, t) ∧
      Refused s t (R.sentTo s.login_url held) := by
  obtain ⟨hret, hleft⟩ := performRequest_refused R base (s := s.asJson) hs (hheld.setHeader _ _)
    s.login_url .post (account_json s.user_account)
  have hno : ¬ (HttpRet.mk ESP_OK 401).is200 = true := by decide
  rw [← hret] at hno
  exact ⟨_, if_neg hno, hleft.world, hleft.credentials, hleft.holds⟩

/-- Signing in again, if it is refused: the token stays, and the handle is left at the URL of the
login. -/
theorem forceRefreshAuth_refused (R : Service Loc δ) (base : Bytes) {s : App (Outside δ)}
    {held : Bytes} (hs : ∀ i < 10, s.world.1 i = .refused) (hheld : s.Holds held)
    (hlogin : R.accepts s.login_url = true) :
    ∃ t, forceRefreshAuth (R.world base) s = some (ESP_FAIL, t) ∧
      t.world = (fun i => s.world.1 (i + 10), s.world.2) ∧ t.auth_token = s.auth_token ∧
      t.Holds s.login_url := by
  obtain ⟨s₁, hauth, hleft⟩ := getAuthToken_refused R base (fun i hi => hs i (by omega)) hheld
  have hs₁ : ∀ i < 5, s₁.world.1 i = .refused := by
    intro i hi
    rw [hleft.world]
    exact hs _ (by omega)
  obtain ⟨s₂, hrefresh, hleft₂⟩ := getRefreshToken_refused R base
    (s := { s₁ with user_account := s₁.user_account }) hs₁ hleft.holds
  have hlogin₁ : s₁.login_url = s.login_url := congrArg Credentials.login_url hleft.credentials
  have hfail : ESP_FAIL ≠ ESP_OK := by decide
  refine ⟨s₂, ?_, ?_, ?_, ?_⟩
  · simp only [forceRefreshAuth, hauth, Option.bind_eq_bind, Option.bind_some, if_neg hfail,
      loginUserAccount, signIn, hrefresh, if_pos hfail]
  · rw [hleft₂.world, hleft.world]
  · exact (congrArg Credentials.auth_token hleft₂.credentials).trans
      (congrArg Credentials.auth_token hleft.credentials)
  · have hholds := hleft₂.holds
    rw [Service.sentTo, hlogin₁, if_pos hlogin] at hholds
    exact hholds

/-- A round that is refused. -/
theorem sendOnce_refused (R : Service Loc δ) (base : Bytes) {held : Bytes}
    (hheld : d.app.Holds held) (hs : ∀ i < 5, d.app.world.1 i = .refused) (method : Method)
    (path json_str : CStr) :
    ∃ d', d.sendOnce (R.world base) method path json_str = (⟨ESP_OK, 401⟩, d') ∧
      Refused d.app d'.app (R.sentTo (d.putUrl path) held) := by
  obtain ⟨hret, hleft⟩ := performRequest_refused R base
    (s := (d.setHeader (ascii "content-type") (ascii "application/json")).app) hs
    (hheld.setHeader _ _) (d.putUrl path) method json_str.bytes
  exact ⟨_, Prod.ext hret rfl, hleft.world, hleft.credentials, hleft.holds⟩

/-- Signing in again, seen from the database client. -/
theorem renew_refused (R : Service Loc δ) (base : Bytes) {held : Bytes} (hheld : d.app.Holds held)
    (hs : ∀ i < 10, d.app.world.1 i = .refused) (hlogin : R.accepts d.app.login_url = true)
    (path : CStr) :
    ∃ d', d.renew (forceRefreshAuth (R.world base)) = some d' ∧ d'.putUrl path = d.putUrl path ∧
      d'.app.world = (fun i => d.app.world.1 (i + 10), d.app.world.2) ∧
      d'.app.Holds d.app.login_url := by
  obtain ⟨app, hauth, hworld, htoken, hholds⟩ := forceRefreshAuth_refused R base hs hheld hlogin
  refine ⟨{ d with app := app }, by rw [Rtdb.renew, hauth]; rfl, ?_, hworld, hholds⟩
  rw [Rtdb.putUrl, Rtdb.putUrl, htoken]

/-- A round that is granted and goes to a URL of no location, because its own is not accepted. -/
theorem sendOnce_elsewhere {held : Bytes} (hheld : d.app.Holds held)
    (hnone : R.locate base held = none) (haccepts : R.accepts (d.putUrl path) = false)
    (hgranted : d.app.world.1 0 = .granted) (json_str : CStr) :
    ∃ d', d.sendOnce (R.world base) .put path json_str = (⟨ESP_OK, 200⟩, d') ∧
      d'.app.world.2 = d.app.world.2 := by
  obtain ⟨c, hc, hurl⟩ := hheld.setHeader (ascii "content-type") (ascii "application/json")
  rcases hset : setUp (R.world base) d.app.asJson.world d.app.asJson.client (d.putUrl path) .put
    json_str.bytes with ⟨_ | c', w⟩
  · exact absurd (setUp_eq_none hset).1 (by simp [hc])
  · have hlocate : R.locate base c'.url = none := by
      rw [hc] at hset
      rw [url_setUp hset, if_neg (by simp [Service.world, haccepts]), hurl, hnone]
    obtain ⟨hret, hleft⟩ := performRequest_granted (s := d.app.asJson) hgranted hset
    have happly : R.apply base c' d.app.asJson.world.2 = d.app.world.2 := by
      rw [Database.apply, hlocate]
      rfl
    exact ⟨_, Prod.ext hret rfl, hleft.trans happly⟩

/-- **A `putData` whose URL is not accepted** may return `ESP_OK` without having set anything. -/
theorem putData_unaccepted {held : Bytes} (hheld : d.app.Holds held)
    (hsign : SignInElsewhere R d.base_database_url d.app.login_url d.app.auth_url)
    (haccepts : R.accepts (d.putUrl path) = false) (json_str : CStr) (t : δ) :
    R.putReturns d.base_database_url.bytes (d.inWorld (lateGrant, t)) path json_str
        = some ESP_OK ∧
      (R.afterPut d.base_database_url.bytes (d.inWorld (lateGrant, t)) path json_str).app.world.2
        = t := by
  have hlate : ∀ i < 15, lateGrant i = .refused := fun i hi => if_pos hi
  obtain ⟨d₁, hfirst, hleft⟩ := sendOnce_refused R d.base_database_url.bytes
    (d := d.inWorld (lateGrant, t)) hheld (fun i hi => hlate i (by omega)) .put path json_str
  have hlogin : d₁.app.login_url = d.app.login_url :=
    congrArg Credentials.login_url hleft.credentials
  have hstill : ∀ i < 10, d₁.app.world.1 i = .refused := by
    intro i hi
    rw [hleft.world]
    exact hlate _ (by omega)
  obtain ⟨d₂, hrenew, hurl, hworld, hholds⟩ := renew_refused R d.base_database_url.bytes hleft.holds
    hstill (hsign.accepted _ (Or.inl hlogin)) path
  have hputUrl : d₂.putUrl path = (d.inWorld (lateGrant, t)).putUrl path :=
    hurl.trans (putUrl_sendOnce hfirst)
  -- the second round goes to the URL of the login
  rw [hleft.world] at hworld
  have hgranted : d₂.app.world.1 0 = .granted := by
    rw [hworld]
    rfl
  obtain ⟨d₃, hsecond, hlast⟩ := sendOnce_elsewhere hholds
    (hsign.elsewhere _ (Or.inl hlogin)) (by rw [hputUrl]; exact haccepts) hgranted json_str
  have hput : putData (R.world d.base_database_url.bytes) (d.inWorld (lateGrant, t)) path json_str
      = _ := sendData_twice hfirst (by decide) rfl hrenew hsecond
  rw [Service.putReturns, Service.afterPut, hput]
  refine ⟨rfl, hlast.trans ?_⟩
  rw [hworld]
  rfl

/-- The script of a write that is granted. -/
def grants (_ : ℕ) : WriteOutcome :=
  .granted

/-- A write that is granted, with a handle or with one that can be made. -/
theorem putData_granted (hhandle : d.app.client ≠ none ∨ R.accepts (d.putUrl path) = true)
    (json_str : CStr) (t : δ) :
    R.putReturns base (d.inWorld (grants, t)) path json_str = some ESP_OK := by
  set s := (d.inWorld (grants, t)).app.asJson with hs
  have hret : ((d.inWorld (grants, t)).sendOnce (R.world base) .put path json_str).1
      = ⟨ESP_OK, 200⟩ := by
    rcases hset : setUp (R.world base) s.world s.client (d.putUrl path) .put json_str.bytes
      with ⟨_ | c, w⟩
    · obtain ⟨hnone, hinit⟩ := setUp_eq_none hset
      have hclient : d.app.client = none := Option.map_eq_none_iff.mp hnone
      have haccepts : R.accepts (d.putUrl path) = false := congrArg Prod.fst hinit
      exact absurd hhandle (by simp [hclient, haccepts])
    · exact (performRequest_granted (s := s) rfl hset).1
  have hput : putData (R.world base) (d.inWorld (grants, t)) path json_str = _ :=
    sendData_once (Prod.ext hret rfl) (Or.inl (by decide))
  rw [Service.putReturns, hput]
  rfl

/-- A write without a handle, when none can be made. -/
theorem putData_no_handle (hclient : d.app.client = none)
    (haccepts : R.accepts (d.putUrl path) = false) (base : Bytes) (json_str : CStr) :
    R.putReturns base d path json_str = some ESP_FAIL ∧
      (R.afterPut base d path json_str).app.world = d.app.world ∧
      (R.afterPut base d path json_str).app.sent = d.app.sent := by
  have hset : setUp (R.world base) d.app.asJson.world d.app.asJson.client (d.putUrl path) .put
      json_str.bytes = (none, d.app.world) := by
    simp [App.setHeader, hclient, setUp, useClient, Service.world, haccepts]
  have hrequest : performRequest (R.world base) d.app.asJson (d.putUrl path) .put json_str.bytes
      = (⟨ESP_FAIL, -1⟩, d.app.asJson) := by
    rw [performRequest, requestLoop, hset]
    rfl
  have hret : (d.sendOnce (R.world base) .put path json_str).1 = ⟨ESP_FAIL, -1⟩ := by
    change (performRequest (R.world base) d.app.asJson (d.putUrl path) .put json_str.bytes).1 = _
    rw [hrequest]
  have happ : (d.sendOnce (R.world base) .put path json_str).2.app = d.app.asJson := by
    change (performRequest (R.world base) d.app.asJson (d.putUrl path) .put json_str.bytes).2 = _
    rw [hrequest]
  have hput : putData (R.world base) d path json_str = _ :=
    sendData_once (Prod.ext hret rfl) (Or.inr (by decide))
  rw [Service.putReturns, Service.afterPut, hput]
  refine ⟨rfl, ?_, ?_⟩ <;> rw [Rtdb.clearHTTPBuffer, Rtdb.onApp, happ] <;> rfl

/-- A write without a handle, when none can be made, is all or nothing: it is nothing. -/
theorem putsOnce_no_handle (hclient : d.app.client = none)
    (haccepts : R.accepts (d.putUrl path) = false) (base : Bytes) (json_str : CStr) :
    R.PutsOnce base d path json_str := by
  obtain ⟨hfail, hworld, hsent⟩ := putData_no_handle hclient haccepts base json_str
  have hno : R.putReturns base d path json_str ≠ some ESP_OK := by
    rw [hfail]
    decide
  exact ⟨Or.inl (congrArg Prod.snd hworld), fun hok => absurd hok hno,
    ⟨[], by rw [hsent, List.append_nil], by simp⟩, fun hok => absurd hok hno⟩

end Scripts

end PppAmb
