import PppAmb.SensorLoop

/-!
# The Database behind `sensor_task`

What the database does with each kind of request that `sensor_task` makes, and what a call of
the C interface leaves there, for an app that is idle between its requests.

What is assumed of the database is collected in `Backend`: a request that writes is applied or
not, a success means that it was applied, and a listing brings the first children. A text that
is put is taken for a document, or refused.

## Main results

* `putData_serves`, `trim_serves`, `refresh_serves`, `delete_serves`: what a call leaves in the
  database, whatever becomes of its attempts.
* `init_serves`: signing in leaves the database alone.
* `stationServer_backend`: a database that meets the assumptions.
-/

namespace PppAmb

/-! ### What is assumed -/

section Assumptions

variable {σ : Type}

/-- The URLs that sign in. -/
def Privado.login_url (P : Privado) : Bytes :=
  ascii "https://identitytoolkit.googleapis.com/v1/accounts:signInWithPassword?key=" ++ P.API_KEY

def Privado.register_url (P : Privado) : Bytes :=
  ascii "https://identitytoolkit.googleapis.com/v1/accounts:signUp?key=" ++ P.API_KEY

def Privado.auth_url (P : Privado) : Bytes :=
  ascii "https://securetoken.googleapis.com/v1/token?key=" ++ P.API_KEY

section

/-- Texts are ordered byte by byte. -/
local instance lawfulOrderLT_bytes : Std.LawfulOrderLT Bytes :=
  inferInstance

/-- The children of a node after a text is put at a key: the text is taken for a document, or
it is refused. -/
def putText (takes : Bytes → Option Json) (t : Store Bytes Json) (key json : Bytes) :
    Store Bytes Json :=
  (takes json).elim t fun v => t.put key v

end

/-- **What the database does with the requests of `sensor_task`.** `db` is what it holds below
the root, `takes` the document it takes a text for. -/
structure Backend (W : World σ) (P : Privado) (db : σ → Store Bytes Json) (root_path : CStr)
    (takes : Bytes → Option Json) : Prop extends KeepsDb W db P.login_url P.auth_url where
  register : ∀ w c, c.method = .post → c.url = P.register_url → db (W.perform w c).2 = db w
  put : ∀ w c query key, isClave key = true → c.method = .put →
    Names c.url P.DATABASE_URL.bytes (root_path.bytes ++ ascii "/" ++ key) query →
      (db (W.perform w c).2 = db w ∨
          db (W.perform w c).2 = putText takes (db w) key c.post_field) ∧
        ((W.perform w c).1.err = ESP_OK → (W.perform w c).1.status_code = 200 →
          db (W.perform w c).2 = putText takes (db w) key c.post_field)
  list : ∀ w c query, c.method = .get → Names c.url P.DATABASE_URL.bytes root_path.bytes query →
    parameter query (ascii "orderBy") = some (ascii "%22%24key%22") →
    parameter query (ascii "limitToFirst") = some (ascii (toString (50 : Int))) →
      db (W.perform w c).2 = db w ∧
        ((W.perform w c).1.err = ESP_OK → (W.perform w c).1.status_code = 200 →
          Lists (W.perform w c).1.body ((db w).entries.take 50))
  patch : ∀ w c query keys, keys ≠ [] → (∀ key ∈ keys, isClave key = true) → c.method = .patch →
    Names c.url P.DATABASE_URL.bytes root_path.bytes query → c.post_field = nullsText keys →
      (db (W.perform w c).2 = db w ∨ db (W.perform w c).2 = (db w).erase keys) ∧
        ((W.perform w c).1.succeeded = true → db (W.perform w c).2 = (db w).erase keys)
  delete : ∀ w c query, c.method = .delete →
    Names c.url P.DATABASE_URL.bytes root_path.bytes query →
      (db (W.perform w c).2 = db w ∨ db (W.perform w c).2 = .empty) ∧
        ((W.perform w c).1.succeeded = true → db (W.perform w c).2 = .empty)

variable {W : World σ} {P : Privado} {db : σ → Store Bytes Json} {root_path : CStr}
  {takes : Bytes → Option Json}

/-- A key of this form stands in the path as it is. -/
theorem childPath_of_isClave {key : Bytes} (hkey : isClave key = true) :
    (childPath root_path key).bytes = root_path.bytes ++ ascii "/" ++ key := by
  rw [childPath_bytes, cString_eq_self (nulFree_of_isClave hkey)]

theorem Backend.writes (h : Backend W P db root_path takes) {key : Bytes}
    (hkey : isClave key = true) (json : CStr) :
    Writes W db .put P.DATABASE_URL (childPath root_path key) json
      (fun t => putText takes t key json.bytes) P.login_url P.auth_url where
  toSignsIn := h.toKeepsDb.signsIn
  write w c query hmethod hnames hbody := by
    rw [childPath_of_isClave hkey] at hnames
    rw [← hbody]
    exact h.put w c query key hkey hmethod hnames

theorem Backend.firebase (h : Backend W P db root_path takes) :
    Firebase W db P.DATABASE_URL root_path 50 where
  toServes := h.toServes
  list := h.list
  patch := h.patch

end Assumptions

theorem putText_putText (takes : Bytes → Option Json) (t : Store Bytes Json) (key json : Bytes) :
    putText takes (putText takes t key json) key json = putText takes t key json := by
  cases h : takes json <;> simp [putText, h]

/-! ### An app that is served -/

section Serving

variable {σ : Type} {W : World σ} {P : Privado} {db : σ → Store Bytes Json} {root_path : CStr}
  {takes : Bytes → Option Json}

/-- The interface has its client, and the app is idle. -/
structure Serving (P : Privado) (s : Shim σ) (app : App σ) : Prop where
  rtdb : s.g_rtdb = some P.DATABASE_URL
  holds : s.g_app = some app
  idle : app.Idle
  login_url : app.login_url = P.login_url
  auth_url : app.auth_url = P.auth_url

variable {s s' : Shim σ} {app app' : App σ} {r : Int}

theorem Serving.next (h : Serving P s app) (hstay : StaysIdle app app')
    (hrtdb : s'.g_rtdb = some P.DATABASE_URL) (happ : s'.g_app = some app') : Serving P s' app' :=
  ⟨hrtdb, happ, hstay.idle h.idle, hstay.login_url.trans h.login_url,
    hstay.auth_url.trans h.auth_url⟩

/-- **A put** is all or nothing; if 0 is returned it is done. -/
theorem putData_serves (hW : W.ClosesFailed) (hB : Backend W P db root_path takes)
    (h : Serving P s app) {key : Bytes} (hkey : isClave key = true) {json : CStr}
    (hret : firebase_putData W (childPath root_path key) json s = some (r, s')) :
    ∃ app', Serving P s' app' ∧
      (db app'.world = db app.world ∨
        db app'.world = putText takes (db app.world) key json.bytes) ∧
      (r = 0 → db app'.world = putText takes (db app.world) key json.bytes) := by
  obtain ⟨err, d', hput, hzero, hrtdb, happ⟩ := firebase_putData_eq_some h.rtdb h.holds hret
  have hwrites := hB.writes hkey json
  rw [← h.login_url, ← h.auth_url] at hwrites
  obtain ⟨heither, hdone⟩ := Writes.put (d := ⟨P.DATABASE_URL, app, []⟩)
    (fun t => putText_putText takes t key json.bytes) hwrites (hB.toServes.sendsAsCalled _)
    (sendData_path hput)
  refine ⟨d'.app, h.next ((graded_staysIdle hW).sendData hput) hrtdb happ, heither, fun hr => ?_⟩
  exact hdone (congrArg some (hzero.mp hr))

/-- **The refresh of the token** leaves the database alone. -/
theorem refresh_serves (hW : W.ClosesFailed) (hB : Backend W P db root_path takes)
    (h : Serving P s app) (hret : firebase_refresh_token W s = some (r, s')) :
    ∃ app', Serving P s' app' ∧ db app'.world = db app.world := by
  obtain ⟨err, app', hcall, -, hrtdb, happ⟩ := firebase_refresh_token_eq_some h.holds hret
  have hkeeps := hB.toKeepsDb
  rw [← h.login_url, ← h.auth_url] at hkeeps
  refine ⟨app', ?_, (forceRefreshAuth_leavesDb hkeeps.signsIn hcall).same⟩
  exact h.next ((graded_staysIdle hW).forceRefreshAuth hcall) (hrtdb.trans h.rtdb) happ

/-! ### The trim -/

/-- A listing that is received up to some byte tells which records a trim removes. -/
theorem TrimPath.trimmed {d d' : Rtdb σ} {batch_size : Int}
    (h : Firebase W db d.base_database_url root_path batch_size) (hbatch : 0 < batch_size)
    (hkeys : ∀ e ∈ (db d.app.world).entries, isClave e.1 = true)
    (hexact : (d.list W root_path batch_size).1.is2xx = true →
      ∃ e n, (d.list W root_path batch_size).2.app.sent.getLast? = some e ∧
        cString (d.list W root_path batch_size).2.app.recv.local_response_buffer
          = e.attempt.body.take (n + 1))
    (hpath : TrimPath W d root_path batch_size r d') :
    Trimmed batch_size r (db d.app.world) (db d'.app.world) := by
  cases hpath with
  | notListed hget _ => exact .same (Or.inr rfl) (h.listed hget).1
  | noKeys hget => exact .same (Or.inl rfl) (h.listed hget).1
  | @keys get_ret patch_ret d₁ d₂ obj keys hget hlisted hobj hkind hnames hne hpatch =>
      rw [hget] at hexact
      obtain ⟨hsame, hbody⟩ := h.listed hget
      obtain ⟨e, hlast, hlists⟩ := hbody hlisted
      obtain ⟨e', n, hlast', hbuffer⟩ := hexact (HttpRet.is2xx_of_is200 hlisted)
      obtain rfl : e = e' := Option.some.inj (hlast.symm.trans hlast')
      have hparse : parse (e.attempt.body.take (n + 1)) = some obj := hbuffer ▸ hobj
      have hfirst := (parse_cut_listing hlists (fun e he => hkeys e (List.mem_of_mem_take he))
        ((db d.app.world).increasing.sublist (List.take_sublist _ _)) n hparse).resolve_left
        (by simp [hkind])
      obtain ⟨j, hj⟩ := hfirst
      have hdb : db d₁.parseResponse.2.app.world = db d.app.world := hsame
      have hbase : d₁.parseResponse.2.base_database_url = d.base_database_url := by
        obtain ⟨-, rfl⟩ := Prod.mk.inj hget
        rfl
      rw [hnames, Option.some.injEq, List.take_take, Rtdb.world_setHeader, ← hdb] at hj
      rw [← hbase] at h
      rw [← hdb] at hkeys ⊢
      have htrim := Firebase.trimmed (d := d₁.parseResponse.2) h hne hj (by omega) hkeys hpatch
      exact htrim

/-- **A trim** removes the oldest records, and as many as it reports if it reports any. -/
theorem trim_serves (hW : W.ClosesFailed) (hlegal : W.Legal)
    (hB : Backend W P db root_path takes) (h : Serving P s app)
    (hkeys : ∀ e ∈ (db app.world).entries, isClave e.1 = true)
    (hret : firebase_trim_oldest_batch W root_path 50 s = some (r, s')) :
    ∃ app', Serving P s' app' ∧ Trimmed 50 r (db app.world) (db app'.world) := by
  obtain ⟨d', hcall, hrtdb, happ⟩ := onRtdb_eq_some h.rtdb h.holds hret
  refine ⟨d'.app, h.next ((graded_staysIdle hW).trimOldestBatch hcall) hrtdb happ, ?_⟩
  have hidle : (app.setHeader (ascii "content-type") (ascii "application/json")).Idle :=
    ((graded_staysIdle hW).setHeader app _ _).idle h.idle
  refine TrimPath.trimmed (d := ⟨P.DATABASE_URL, app, []⟩) hB.firebase (by decide) hkeys
    (fun h2xx => ?_) (trimOldestBatch_path (by decide) hcall)
  obtain ⟨e, hlast, hbuffer⟩ := (performRequest_exact hlegal hidle.size
    (hidle.clean hW hlegal.inOrder _ .get [])).1 h2xx
  exact ⟨e, 16382, hlast, hbuffer⟩

/-! ### The deletion of the root -/

/-- What a deletion of the root leaves: the children, or none of them. -/
structure Emptied (db : σ → Store Bytes Json) (d d' : Rtdb σ) (done : Prop) : Prop where
  either : db d'.app.world = db d.app.world ∨ db d'.app.world = .empty
  done : done → db d'.app.world = .empty
  base : d'.base_database_url = d.base_database_url

/-- A round of attempts. -/
theorem Backend.deleteOnce (hB : Backend W P db root_path takes) {d d' : Rtdb σ} {ret : HttpRet}
    (hbase : d.base_database_url = P.DATABASE_URL)
    (hret : d.setDeleteHeaders.performRequest W
      ((deleteTarget d.base_database_url root_path).url d.app.auth_token) .delete [] = (ret, d')) :
    Emptied db d d' (ret.is2xx = true) := by
  rw [hbase] at hret
  obtain ⟨rfl, rfl⟩ := Prod.mk.inj hret
  obtain ⟨query, hnames⟩ := names_deleteTarget P.DATABASE_URL root_path d.app.auth_token
  obtain ⟨hkeep, hdone⟩ := request_attempts hB.toServes.onlyAttempts
    (S := fun t => t = db d.app.world ∨ t = .empty) (R := fun t _ => t = .empty)
    (fun w c hcarry hw => by
      obtain ⟨heither, hsucc⟩ := hB.delete w c query hcarry.2.1 (hcarry.1 ▸ hnames)
      refine ⟨?_, hsucc⟩
      rcases heither with hold | hgone
      · rwa [hold]
      · exact Or.inr hgone) (s := d.setDeleteHeaders.app) (hB.toServes.settersHold _ _) (Or.inl rfl)
  refine ⟨hkeep, fun h2xx => ?_, rfl⟩
  obtain ⟨e, -, -, hgone⟩ := hdone h2xx
  exact hgone

theorem Emptied.trans {d d' d'' : Rtdb σ} {first second : Prop} (h : Emptied db d d' first)
    (h' : Emptied db d' d'' second) : Emptied db d d'' second := by
  refine ⟨?_, h'.done, h'.base.trans h.base⟩
  rcases h'.either with hold | hgone
  · rw [hold]
    exact h.either
  · exact Or.inr hgone

/-- What is done to the app afterwards leaves the database alone. -/
theorem Emptied.congr {d d' d'' : Rtdb σ} {done : Prop} (h : Emptied db d d' done)
    (hworld : db d''.app.world = db d'.app.world)
    (hbase : d''.base_database_url = d'.base_database_url) : Emptied db d d'' done := by
  refine ⟨?_, ?_, hbase.trans h.base⟩ <;> rw [hworld]
  · exact h.either
  · exact h.done

/-- What `deleteData` reports. -/
theorem ok_iff_is2xx {ret : HttpRet} : (if ret.is2xx then ESP_OK else ESP_FAIL) = ESP_OK ↔
    ret.is2xx = true := by
  cases ret.is2xx <;> simp [ESP_OK, ESP_FAIL]

theorem Backend.deleteData (hB : Backend W P db root_path takes) {d d' : Rtdb σ} {err : EspErr}
    (hbase : d.base_database_url = P.DATABASE_URL) (hlogin : d.app.login_url = P.login_url)
    (hauth : d.app.auth_url = P.auth_url)
    (hret : deleteData W d root_path = (some err, d')) : Emptied db d d' (err = ESP_OK) := by
  rw [PppAmb.deleteData] at hret
  set d₀ := d.onApp fun s => s.setHttpTimeoutMs LONG_TIMEOUT_MS with hd₀
  dsimp only at hret
  rcases hfirst : d₀.setDeleteHeaders.performRequest W
    ((deleteTarget d.base_database_url root_path).url d.app.auth_token) .delete [] with ⟨ret, d₁⟩
  have honce := hB.deleteOnce (d := d₀) hbase hfirst
  have hround : Emptied db d d₁ (ret.is2xx = true) := ⟨honce.either, honce.done, honce.base⟩
  simp only [hfirst] at hret
  split at hret
  · cases hrenew : d₁.renew (forceRefreshAuth W) with
    | none => simp [hrenew] at hret
    | some d₂ =>
        simp only [hrenew, Prod.mk.injEq, Option.some.injEq] at hret
        obtain ⟨rfl, rfl⟩ := hret
        obtain ⟨⟨err', app⟩, hcall, rfl⟩ := Option.map_eq_some_iff.mp hrenew
        have hcred : d₁.app.toCredentials = d₀.app.toCredentials := by
          obtain ⟨-, rfl⟩ := Prod.mk.inj hfirst
          exact credentials_performRequest ..
        have hkeeps : KeepsDb W db d₁.app.login_url d₁.app.auth_url := by
          have hlogin₁ := congrArg Credentials.login_url hcred
          have hauth₁ := congrArg Credentials.auth_url hcred
          rw [hlogin₁, hauth₁]
          change KeepsDb W db d.app.login_url d.app.auth_url
          rw [hlogin, hauth]
          exact hB.toKeepsDb
        have hleaves := (forceRefreshAuth_leavesDb hkeeps.signsIn hcall).same
        have hmid : Emptied db d ({ d₁ with app := app } : Rtdb σ) (ret.is2xx = true) :=
          hround.congr hleaves rfl
        have hagain := hmid.trans
          (hB.deleteOnce (d := { d₁ with app := app }) (hround.base.trans hbase) rfl)
        refine Emptied.congr ⟨hagain.either, fun hok => hagain.done ?_, hagain.base⟩ rfl rfl
        exact ok_iff_is2xx.mp hok
  · obtain ⟨hok, rfl⟩ := Prod.mk.inj hret
    obtain rfl := Option.some.inj hok
    refine Emptied.congr ⟨hround.either, fun hok => hround.done ?_, hround.base⟩ rfl rfl
    exact ok_iff_is2xx.mp hok

/-- **The deletion of the root** is all or nothing; if 0 is returned it is done. -/
theorem delete_serves (hW : W.ClosesFailed) (hB : Backend W P db root_path takes)
    (h : Serving P s app) (hret : firebase_delete W root_path s = some (r, s')) :
    ∃ app', Serving P s' app' ∧
      (db app'.world = db app.world ∨ db app'.world = .empty) ∧
      (r = 0 → db app'.world = .empty) := by
  obtain ⟨err, d', hcall, hzero, hrtdb, happ⟩ := firebase_delete_eq_some h.rtdb h.holds hret
  have hempty := hB.deleteData (d := ⟨P.DATABASE_URL, app, []⟩) rfl h.login_url h.auth_url hcall
  exact ⟨d'.app, h.next ((graded_staysIdle hW).deleteData hcall) hrtdb happ, hempty.either,
    fun hr => hempty.done (hzero.mp hr)⟩

/-! ### Signing in for the first time -/

/-- A request that registers the account leaves the database alone. -/
theorem Backend.registers (hB : Backend W P db root_path takes) :
    KeepsDb W db P.register_url P.auth_url where
  toServes := hB.toServes
  signIn w c hmethod hurl := by
    rcases hurl with hregister | hauth
    · exact hB.register w c hmethod hregister
    · exact hB.signIn w c hmethod (Or.inr hauth)

theorem registerUserAccount_same (hB : Backend W P db root_path takes) {t u : App σ}
    {account : UserAccount} {err : EspErr} (hregister : t.register_url = P.register_url)
    (hlogin : t.login_url = P.login_url) (hauth : t.auth_url = P.auth_url)
    (hret : registerUserAccount W t account = some (err, u)) : db u.world = db t.world := by
  simp only [registerUserAccount, signIn, Option.bind_eq_bind, Option.bind_eq_some_iff] at hret
  obtain ⟨⟨err₁, u₁⟩, hrefresh, hret⟩ := hret
  set t₀ : App σ := { t with user_account := account } with ht₀
  have hkeeps : KeepsDb W db t₀.register_url t₀.auth_url := by
    change KeepsDb W db t.register_url t.auth_url
    rw [hregister, hauth]
    exact hB.registers
  have hreq : LeavesDb db t₀ (performRequest W t₀.asJson t₀.asJson.register_url .post
      (account_json t₀.asJson.user_account)).2 :=
    (LeavesDb.asJson t₀).trans (hkeeps.signsIn.performRequest t₀.asJson (Or.inl rfl) _)
  have h₁ : LeavesDb db t₀ u₁ := by
    simp only [getRefreshToken, if_true] at hrefresh
    generalize performRequest W t₀.asJson t₀.asJson.register_url .post
      (account_json t₀.asJson.user_account) = x at hreq hrefresh
    split at hrefresh
    · simp only [Option.bind_eq_bind, Option.bind_eq_some_iff, Option.some.injEq,
        Prod.mk.injEq] at hrefresh
      obtain ⟨token, -, -, rfl⟩ := hrefresh
      exact hreq.trans (.of_eq rfl rfl rfl rfl)
    · obtain ⟨-, rfl⟩ := Prod.mk.inj (Option.some.inj hrefresh)
      exact hreq
  dsimp only at hret
  split at hret
  · obtain ⟨-, rfl⟩ := Prod.mk.inj (Option.some.inj hret)
    exact h₁.same
  · simp only [Option.bind_eq_some_iff] at hret
    obtain ⟨⟨err₂, u₂⟩, htoken, hret⟩ := hret
    have hclear : LeavesDb db t₀ u₁.clearHTTPBuffer := h₁.trans (.of_eq rfl rfl rfl rfl)
    have hlogin₀ : KeepsDb W db t₀.login_url t₀.auth_url := by
      change KeepsDb W db t.login_url t.auth_url
      rw [hlogin, hauth]
      exact hB.toKeepsDb
    have h₂ := hclear.trans (getAuthToken_leavesDb (hlogin₀.signsIn.next hclear) htoken)
    dsimp only at hret
    split at hret <;> obtain ⟨-, rfl⟩ := Prod.mk.inj (Option.some.inj hret) <;> exact h₂.same

/-- An idle app with the URLs of the project. -/
structure NewApp (P : Privado) (t : App σ) : Prop where
  idle : t.Idle
  register_url : t.register_url = P.register_url
  login_url : t.login_url = P.login_url
  auth_url : t.auth_url = P.auth_url

theorem NewApp.next {t u : App σ} (h : NewApp P t) (hstay : StaysIdle t u) : NewApp P u :=
  ⟨hstay.idle h.idle, hstay.register_url.trans h.register_url, hstay.login_url.trans h.login_url,
    hstay.auth_url.trans h.auth_url⟩

theorem NewApp.login (hW : W.ClosesFailed) (hB : Backend W P db root_path takes) {t u : App σ}
    (h : NewApp P t) {account : UserAccount} {err : EspErr}
    (hret : loginUserAccount W t account = some (err, u)) :
    NewApp P u ∧ db u.world = db t.world := by
  have hkeeps : KeepsDb W db t.login_url t.auth_url := by
    rw [h.login_url, h.auth_url]
    exact hB.toKeepsDb
  exact ⟨h.next ((graded_staysIdle hW).signIn hret),
    (loginUserAccount_leavesDb hkeeps.signsIn hret).same⟩

/-- The logins of `firebase_init`. -/
theorem NewApp.firstLogin (hW : W.ClosesFailed) (hB : Backend W P db root_path takes) {t u : App σ}
    (h : NewApp P t) {err : EspErr} (hret : firstLogin W t = some (err, u)) :
    NewApp P u ∧ db u.world = db t.world := by
  simp only [PppAmb.firstLogin, Option.bind_eq_bind, Option.bind_eq_some_iff] at hret
  obtain ⟨⟨err₁, t₁⟩, hlogin, hret⟩ := hret
  obtain ⟨h₁, hsame₁⟩ := h.login hW hB hlogin
  dsimp only at hret
  split at hret
  · simp only [Option.bind_eq_some_iff] at hret
    obtain ⟨⟨err₂, t₂⟩, hregister, hret⟩ := hret
    have h₂ := h₁.next ((graded_staysIdle hW).signIn hregister)
    have hsame₂ := registerUserAccount_same hB h₁.register_url h₁.login_url h₁.auth_url hregister
    dsimp only at hret
    split at hret
    · obtain ⟨h₃, hsame₃⟩ := h₂.login hW hB hret
      exact ⟨h₃, hsame₃.trans (hsame₂.trans hsame₁)⟩
    · obtain ⟨-, rfl⟩ := Prod.mk.inj (Option.some.inj hret)
      exact ⟨h₂, hsame₂.trans hsame₁⟩
  · obtain ⟨-, rfl⟩ := Prod.mk.inj (Option.some.inj hret)
    exact ⟨h₁, hsame₁⟩

/-- **`firebase_init`** leaves the database alone, and if it returns 0 for a new app, the app is
served. -/
theorem init_serves (hW : W.ClosesFailed) (hB : Backend W P db root_path takes) {buf : Bytes}
    (hbuf : buf.length = HTTP_RECV_BUFFER_SIZE) {w : σ}
    (hret : firebase_init W P buf (Shim.start w) = some (0, s')) :
    ∃ app', Serving P s' app' ∧ db app'.world = db w := by
  have hnew : (Shim.start w).g_app.isSome = false := rfl
  rw [firebase_init, if_neg (by simp [hnew])] at hret
  simp only [Option.bind_eq_bind, Option.bind_eq_some_iff] at hret
  obtain ⟨⟨err, app⟩, hlogin, hret⟩ := hret
  set new : App σ := { App.new W P.API_KEY buf w with
    user_account := ⟨P.USER_EMAIL, P.USER_PASSWORD⟩ } with hdef
  have hfresh : NewApp P new ∧ db new.world = db w := by
    have hinit := hW.init w Client.main.url
    have hworld := hB.init w Client.main.url
    have hclient : new.client = some Client.main := by simp [hdef, App.new, hinit]
    refine ⟨⟨⟨⟨⟨Client.main, hclient, rfl⟩, hbuf⟩, fun c hc => ?_⟩, rfl, rfl, rfl⟩, hworld⟩
    obtain rfl := Option.some.inj (hclient.symm.trans hc)
    rfl
  obtain ⟨happ, hsame⟩ := hfresh.1.firstLogin hW hB hlogin
  dsimp only at hret
  split at hret
  · exact absurd (Prod.mk.inj (Option.some.inj hret)).1 (by decide)
  · obtain ⟨-, rfl⟩ := Prod.mk.inj (Option.some.inj hret)
    exact ⟨app, ⟨rfl, rfl, happ.idle, happ.login_url, happ.auth_url⟩, hsame.trans hfresh.2⟩

end Serving

/-! ### A database that meets them -/

/-- A database at `https://db` that answers every attempt, and holds the records below
`/historial_mediciones`. What cannot be a string is not sent. -/
def stationServer (takes : Bytes → Option Json) : World (Store Bytes Json) where
  init w _ := (true, w)
  setUrl w _ := (true, w)
  setMethod w _ := (true, w)
  setPostField w _ := (true, w)
  perform w c :=
    let atRoot := pathIn (ascii "https://db") c.url = some (ascii "/historial_mediciones")
    match c.method with
    | .post => (.fresh ESP_OK 200 tokensBody, w)
    | .get =>
        let answer := answerList (queryOf c.url) w.entries
        (if atRoot ∧ NulFree answer.body then answer else .fresh ESP_OK 500 [], w)
    | .put =>
        match pathIn (ascii "https://db/historial_mediciones/") c.url with
        | some key => (.fresh ESP_OK 200 [], putText takes w key c.post_field)
        | none => (.fresh ESP_OK 404 [], w)
    | .patch =>
        if atRoot then (.fresh ESP_OK 204 [], w.erase (nullNames c.post_field))
        else (.fresh ESP_OK 404 [], w)
    | .delete => if atRoot then (.fresh ESP_OK 200 [], .empty) else (.fresh ESP_OK 404 [], w)
  time _ := 0
  printReal := id

/-- What the server answers is received over a fresh connection, and is a string. -/
theorem stationServer_answer (takes : Bytes → Option Json) (w : Store Bytes Json) (c : Client) :
    ∃ status_code body, NulFree body ∧
      ((stationServer takes).perform w c).1 = .fresh ESP_OK status_code body := by
  have hlist : ∀ query entries, ∃ status_code body,
      answerList query entries = .fresh ESP_OK status_code body := by
    intro query entries
    rw [answerList]
    split
    · split <;> exact ⟨_, _, rfl⟩
    · exact ⟨_, _, rfl⟩
  have hnil : NulFree [] := by decide
  simp only [stationServer]
  split
  · exact ⟨_, _, by decide +kernel, rfl⟩
  · obtain ⟨status_code, body, hanswer⟩ := hlist (queryOf c.url) w.entries
    rw [hanswer, Attempt.body_fresh]
    split
    · rename_i hstring
      exact ⟨_, _, hstring.2, rfl⟩
    · exact ⟨_, _, hnil, rfl⟩
  · split <;> exact ⟨_, _, hnil, rfl⟩
  · split <;> exact ⟨_, _, hnil, rfl⟩
  · split <;> exact ⟨_, _, hnil, rfl⟩

theorem stationServer_legal (takes : Bytes → Option Json) : (stationServer takes).Legal := by
  intro w c
  obtain ⟨status_code, body, hstring, hanswer⟩ := stationServer_answer takes w c
  rw [hanswer, Attempt.body_fresh]
  exact ⟨Attempt.legal_fresh _ _ _ _, hstring⟩

theorem stationServer_closesFailed (takes : Bytes → Option Json) :
    (stationServer takes).ClosesFailed := by
  refine ⟨fun _ _ => rfl, fun w c _ => ?_⟩
  obtain ⟨status_code, body, -, hanswer⟩ := stationServer_answer takes w c
  rw [hanswer]
  rfl

theorem stationServer_backend (takes : Bytes → Option Json) :
    Backend (stationServer takes) somePrivado id historial_mediciones takes := by
  have hpath : PathText historial_mediciones.bytes := by decide
  have hmark : ch '?' ∉ somePrivado.DATABASE_URL.bytes ++ historial_mediciones.bytes := by decide
  have hroot : ∀ {c : Client} {query : Bytes},
      Names c.url somePrivado.DATABASE_URL.bytes historial_mediciones.bytes query →
        pathIn (ascii "https://db") c.url = some (ascii "/historial_mediciones") :=
    fun hnames => pathIn_of_names hpath hnames
  refine ⟨⟨⟨fun _ _ => rfl, fun _ _ => ⟨rfl, rfl⟩, fun _ _ => ⟨rfl, rfl⟩, fun _ _ => ⟨rfl, rfl⟩⟩,
    ?_⟩, ?_, ?_, ?_, ?_, ?_⟩
  · intro w c hmethod _
    simp [stationServer, hmethod]
  · intro w c hmethod _
    simp [stationServer, hmethod]
  · intro w c query key hkey hmethod hnames
    have hhere : pathIn (ascii "https://db/historial_mediciones/") c.url = some key := by
      exact pathIn_of_names (pathText_of_isClave hkey) hnames.below
    simp [stationServer, hmethod, hhere]
  · intro w c query hmethod hnames horder hlimit
    have hanswer : answerList (queryOf c.url) w.entries
        = .fresh ESP_OK 200 (listing (w.entries.take 50)) := by
      rw [queryOf_of_names hmark hnames, answerList, if_pos horder, hlimit]
      rfl
    simp only [stationServer, hmethod, hroot hnames, true_and, hanswer, Attempt.body_fresh, id_eq]
    intro _ hstatus
    split at hstatus
    · rename_i hstring
      rw [if_pos hstring, Attempt.body_fresh]
      exact Or.inl rfl
    · exact absurd hstatus (by decide)
  · intro w c query keys hne hkeys hmethod hnames hbody
    have hnulls : nullNames c.post_field = keys := by
      rw [hbody, nullNames_nullsText hne fun key hkey => comma_not_mem_of_isClave (hkeys key hkey)]
    simp [stationServer, hmethod, hroot hnames, hnulls]
  · intro w c query hmethod hnames
    simp [stationServer, hmethod, hroot hnames]

end PppAmb
