import PppAmb.Writes

/-!
# `POST` over a Sequence of Outcomes

Every `POST` that the database applies creates a new child, and `performRequest` resends every
request that is not answered with a 2xx. What becomes of the attempts is given: an attempt is
applied and acknowledged, applied with the acknowledgement lost, or not applied. This module says
what a call adds.

## Main results

* `postData_adds_once_iff`: `postData` adds at most one child, and one if it succeeds, exactly when
  none of its attempts is applied after one whose acknowledgement was lost.
* `post_applied_twice`: a lost acknowledgement makes two children.
-/

namespace PppAmb

/-- **Nothing is applied after a lost acknowledgement.** -/
def ResendsSafely (fates : List Fate) : Prop :=
  fates.Pairwise fun earlier later => earlier = .appliedAckLost → later.applies = false

/-- If an acknowledgement ends the attempts, then at most one of them is applied exactly when
nothing is applied after a lost acknowledgement. -/
theorem resendsSafely_iff {fates : List Fate} (hlast : Fate.applied ∉ fates.dropLast) :
    ResendsSafely fates ↔ fates.countP Fate.applies ≤ 1 := by
  induction fates with
  | nil => simp [ResendsSafely]
  | cons fate fates ih =>
      rcases fates with _ | ⟨next, rest⟩
      · have hle := List.countP_le_length (p := Fate.applies) (l := [fate])
        exact iff_of_true (List.pairwise_singleton _ _) hle
      · rw [List.dropLast_cons_of_ne_nil (by simp), List.mem_cons, not_or] at hlast
        have ih := ih hlast.2
        rw [ResendsSafely, List.pairwise_cons, ← ResendsSafely]
        cases fate with
        | applied => exact absurd rfl hlast.1
        | notApplied =>
            rw [List.countP_cons_of_neg (by simp [Fate.applies]), ← ih]
            simp
        | appliedAckLost =>
            rw [List.countP_cons_of_pos (by simp [Fate.applies])]
            constructor
            · rintro ⟨hnone, -⟩
              have hzero : (next :: rest).countP Fate.applies = 0 :=
                List.countP_eq_zero.mpr fun f hf => by simp [hnone f hf rfl]
              omega
            · intro hle
              have hzero : (next :: rest).countP Fate.applies = 0 := by omega
              refine ⟨fun f hf _ => ?_, ih.mpr (by omega)⟩
              simpa using List.countP_eq_zero.mp hzero f hf

section Post

variable {σ : Type} {W : World σ} {children : σ → List Bytes} {attempts : σ → ℕ}
  {fates : ℕ → Fate} {base path json_str : CStr} {login_url auth_url : Bytes}

/-- What an attempt brings, by what becomes of it: an acknowledgement is a 2xx, and a 200 is never
sent for a request that was not applied. -/
def Fate.Brings : Fate → Attempt → Prop
  | .applied, a => a.succeeded = true
  | .appliedAckLost, a => a.succeeded = false
  | .notApplied, a => ¬ (a.err = ESP_OK ∧ a.status_code = 200)

/-- **What the database does with a `POST`** of the JSON text to the node at the path: the attempt
with the number `n` has the fate `fates n`, and it adds a child if it is applied. The requests
that sign in are none of these attempts. -/
structure Posts (W : World σ) (children : σ → List Bytes) (attempts : σ → ℕ) (fates : ℕ → Fate)
    (base path json_str : CStr) (login_url auth_url : Bytes) : Prop
    extends KeepsDb W (fun w => (children w, attempts w)) login_url auth_url where
  post : ∀ w c query, c.method = .post → Names c.url base.bytes path.bytes query →
    c.post_field = json_str.bytes →
      attempts (W.perform w c).2 = attempts w + 1 ∧
      children (W.perform w c).2 = children w
        ++ (if (fates (attempts w)).applies then [json_str.bytes] else []) ∧
      (fates (attempts w)).Brings (W.perform w c).1

/-- The fates of the attempts from the number `n` on that come before the number `m`. -/
def fatesBetween (fates : ℕ → Fate) (n m : ℕ) : List Fate :=
  (List.range' n (m - n)).map fates

theorem fatesBetween_self (fates : ℕ → Fate) (n : ℕ) : fatesBetween fates n n = [] := by
  rw [fatesBetween, Nat.sub_self]
  rfl

theorem fatesBetween_cons {n m : ℕ} (h : n < m) :
    fatesBetween fates n m = fates n :: fatesBetween fates (n + 1) m := by
  have hsub : m - n = (m - (n + 1)) + 1 := by omega
  rw [fatesBetween, fatesBetween, hsub, List.range'_succ]
  rfl

theorem fatesBetween_append {n m k : ℕ} (h : n ≤ m) (h' : m ≤ k) :
    fatesBetween fates n m ++ fatesBetween fates m k = fatesBetween fates n k := by
  obtain ⟨i, rfl⟩ := Nat.exists_eq_add_of_le h
  obtain ⟨j, rfl⟩ := Nat.exists_eq_add_of_le h'
  rw [fatesBetween, fatesBetween, fatesBetween, ← List.map_append, Nat.add_sub_cancel_left,
    Nat.add_sub_cancel_left, List.range'_append_1, Nat.add_assoc, Nat.add_sub_cancel_left]

/-- What a request adds, by what becomes of its attempts. -/
structure Added (children : σ → List Bytes) (attempts : σ → ℕ) (fates : ℕ → Fate)
    (json_str : CStr) (before after : σ) (ret : HttpRet) : Prop where
  counted : attempts before ≤ attempts after
  added : children after = children before ++ List.replicate
    ((fatesBetween fates (attempts before) (attempts after)).countP Fate.applies) json_str.bytes
  lastOnly : Fate.applied ∉ (fatesBetween fates (attempts before) (attempts after)).dropLast
  acknowledged : Fate.applied ∈ fatesBetween fates (attempts before) (attempts after) →
    ret.is2xx = true
  applied : ret.is200 = true →
    Fate.applied ∈ fatesBetween fates (attempts before) (attempts after)

/-- No attempt is made. -/
theorem Added.nil {before after : σ} {ret : HttpRet} (hret : ret.is2xx = false)
    (hchildren : children after = children before) (hattempts : attempts after = attempts before) :
    Added children attempts fates json_str before after ret := by
  have hnone : fatesBetween fates (attempts before) (attempts after) = [] := by
    rw [hattempts, fatesBetween_self]
  refine ⟨hattempts.ge, ?_, ?_, ?_, fun hok => ?_⟩
  · simp [hnone, hchildren]
  · simp [hnone]
  · simp [hnone]
  · simp [HttpRet.is2xx_of_is200 hok] at hret

/-- The attempt that is acknowledged, or the last one. -/
theorem Added.one {before after : σ} {ret : HttpRet}
    (hattempts : attempts after = attempts before + 1)
    (hchildren : children after = children before
      ++ (if (fates (attempts before)).applies then [json_str.bytes] else []))
    (hacknowledged : fates (attempts before) = .applied → ret.is2xx = true)
    (happlied : ret.is200 = true → fates (attempts before) = .applied) :
    Added children attempts fates json_str before after ret := by
  have hone : fatesBetween fates (attempts before) (attempts after)
      = [fates (attempts before)] := by
    rw [hattempts, fatesBetween_cons (by omega), fatesBetween_self]
  refine ⟨by omega, ?_, by simp [hone], fun hmem => ?_, fun hok => ?_⟩
  · rw [hone, hchildren, List.countP_singleton]
    split <;> simp_all
  · rw [hone, List.mem_singleton] at hmem
    exact hacknowledged hmem.symm
  · rw [hone, List.mem_singleton]
    exact (happlied hok).symm

/-- A second request comes after one that was not acknowledged. -/
theorem Added.trans {before mid after : σ} {ret ret' : HttpRet}
    (h : Added children attempts fates json_str before mid ret) (hno : ret.is2xx = false)
    (h' : Added children attempts fates json_str mid after ret') :
    Added children attempts fates json_str before after ret' := by
  have happend : fatesBetween fates (attempts before) (attempts mid)
      ++ fatesBetween fates (attempts mid) (attempts after)
        = fatesBetween fates (attempts before) (attempts after) :=
    fatesBetween_append h.counted h'.counted
  have hnot : Fate.applied ∉ fatesBetween fates (attempts before) (attempts mid) :=
    fun hmem => by simp [h.acknowledged hmem] at hno
  refine ⟨h.counted.trans h'.counted, ?_, ?_, ?_, ?_⟩ <;> rw [← happend]
  · rw [h'.added, h.added, List.append_assoc, ← List.replicate_add, List.countP_append]
  · intro hmem
    by_cases hnil : fatesBetween fates (attempts mid) (attempts after) = []
    · rw [hnil, List.append_nil] at hmem
      exact hnot (List.mem_of_mem_dropLast hmem)
    · rw [List.dropLast_append_of_ne_nil hnil] at hmem
      rcases List.mem_append.mp hmem with hin | hin
      · exact hnot hin
      · exact h'.lastOnly hin
  · intro hmem
    rcases List.mem_append.mp hmem with hin | hin
    · exact absurd hin hnot
    · exact h'.acknowledged hin
  · exact fun hok => List.mem_append_right _ (h'.applied hok)

/-- What is done without an attempt does not count. -/
theorem Added.congr {before before' after after' : σ} {ret : HttpRet}
    (h : Added children attempts fates json_str before after ret)
    (hbefore : (children before', attempts before') = (children before, attempts before))
    (hafter : (children after', attempts after') = (children after, attempts after)) :
    Added children attempts fates json_str before' after' ret := by
  obtain ⟨hchildren, hattempts⟩ := Prod.mk.inj hbefore
  obtain ⟨hchildren', hattempts'⟩ := Prod.mk.inj hafter
  refine ⟨?_, ?_, ?_, ?_, ?_⟩ <;> rw [hattempts, hattempts']
  · exact h.counted
  · rw [hchildren, hchildren']
    exact h.added
  · exact h.lastOnly
  · exact h.acknowledged
  · exact h.applied

/-- The fate of an attempt says whether it can be acknowledged, and what a 200 means. -/
theorem Fate.Brings.reported {f : Fate} {a : Attempt} (h : f.Brings a) :
    (f = .applied → (HttpRet.mk a.err a.status_code).is2xx = true) ∧
      ((HttpRet.mk a.err a.status_code).is200 = true → f = .applied) := by
  cases f with
  | applied => exact ⟨fun _ => h, fun _ => rfl⟩
  | appliedAckLost =>
      refine ⟨by simp, fun hok => ?_⟩
      have hsucc : a.succeeded = true := HttpRet.is2xx_of_is200 hok
      exact absurd hsucc (by rw [show a.succeeded = false from h]; decide)
  | notApplied =>
      refine ⟨by simp, fun hok => absurd ?_ h⟩
      simpa [HttpRet.is200] using hok

/-- An attempt adds a child if it is applied. -/
theorem Posts.attempt (h : Posts W children attempts fates base path json_str login_url auth_url)
    {url query : Bytes} (hnames : Names url base.bytes path.bytes query) {w : σ} {c : Client}
    (hcarry : c.Carries url .post json_str.bytes) :
    Added children attempts fates json_str w (W.perform w c).2
      ⟨(W.perform w c).1.err, (W.perform w c).1.status_code⟩ := by
  obtain ⟨hattempts, hchildren, hbrings⟩ := h.post w c query hcarry.2.1 (hcarry.1 ▸ hnames)
    hcarry.2.2
  exact .one hattempts hchildren hbrings.reported.1 hbrings.reported.2

/-- **A request** adds one child for each attempt that is applied; only its last attempt can
be acknowledged, and a 200 says that it was applied. -/
theorem Posts.request (h : Posts W children attempts fates base path json_str login_url auth_url)
    {url query : Bytes} (hnames : Names url base.bytes path.bytes query) (s : App σ) :
    Added children attempts fates json_str s.world
      (performRequest W s url .post json_str.bytes).2.world
      (performRequest W s url .post json_str.bytes).1 := by
  have honly := h.onlyAttempts
  refine requestLoop_rule
    (I := fun _ err status t => (HttpRet.mk err status).is2xx = false ∧
      Added children attempts fates json_str s.world t.world ⟨err, status⟩)
    (Q := fun ret t => Added children attempts fates json_str s.world t.world ret)
    ?_ ?_ ?_ ?_ 5 ESP_FAIL (-1) s ⟨rfl, .nil rfl rfl rfl⟩
  · rintro err status t ⟨-, hadded⟩
    exact hadded
  · rintro n err status t w ⟨-, hadded⟩ hset
    exact hadded.congr rfl (honly.setUp hset)
  · rintro n err status t c w ⟨hno, hadded⟩ hset -
    have hcarry := (carries_setUp_iff hset).mpr (h.settersHold _ _)
    have hnext := (h.attempt hnames (w := w) hcarry).congr (honly.setUp hset).symm rfl
    exact hadded.trans hno hnext
  · rintro n err status t c w ⟨hno, hadded⟩ hset hsucc
    have hcarry := (carries_setUp_iff hset).mpr (h.settersHold _ _)
    have hnext := (h.attempt hnames (w := w) hcarry).congr (honly.setUp hset).symm rfl
    exact ⟨hsucc, (hadded.trans hno hnext).congr rfl (honly.afterFailure _)⟩

/-- One round. -/
theorem Posts.round {d d' : Rtdb σ} {ret : HttpRet}
    (h : Posts W children attempts fates d.base_database_url path json_str login_url auth_url)
    (hsend : d.sendOnce W .post path json_str = (ret, d')) :
    Added children attempts fates json_str d.app.world d'.app.world ret := by
  obtain ⟨rfl, rfl⟩ := Prod.mk.inj hsend
  obtain ⟨token, hnames⟩ := names_dataTarget d.base_database_url path d.app.auth_token
  have hadded := h.request hnames
    (d.setHeader (ascii "content-type") (ascii "application/json")).app
  exact hadded

/-- What a call adds, by what becomes of its attempts. -/
theorem Posts.call {d d' : Rtdb σ} {r : Option EspErr}
    (h : Posts W children attempts fates d.base_database_url path json_str d.app.login_url
      d.app.auth_url)
    (hpath : SendPath W .post d path json_str r d') :
    ∃ ret, (r = some ESP_OK → ret.is200 = true) ∧
      Added children attempts fates json_str d.app.world d'.app.world ret := by
  cases hpath with
  | @once ret d₁ hfirst _ =>
      have hadded := h.round hfirst
      exact ⟨ret, fun hok => reported_eq_ok (Option.some.inj hok), hadded⟩
  | @stopped ret d₁ hfirst _ _ _ => exact ⟨ret, by simp, h.round hfirst⟩
  | @twice ret ret' d₁ d₂ d₃ hfirst hno h401 hrenew hsecond =>
      have hadded := h.round hfirst
      obtain ⟨hbase, hlogin, hauth⟩ := sendOnce_frame hfirst
      rw [← hbase, ← hlogin, ← hauth] at h
      obtain ⟨hleaves, hbase₂⟩ := h.toKeepsDb.signsIn.renew hrenew
      rw [← hbase₂] at h
      have hadded' := (h.round hsecond).congr hleaves.same.symm rfl
      have h2xx : ret.is2xx = false := by simp [HttpRet.is2xx, h401]
      exact ⟨ret', fun hok => reported_eq_ok (Option.some.inj hok), hadded.trans h2xx hadded'⟩

/-- **What a `POST` adds.** For every content of the database and every fate of the attempts:
`postData` adds at most one child, and exactly one if it returns `ESP_OK`, if and only if none of
its attempts is applied after one that was applied without being acknowledged. -/
theorem postData_adds_once_iff (d : Rtdb σ) (path json_str : CStr)
    (h : Posts W children attempts fates d.base_database_url path json_str d.app.login_url
      d.app.auth_url) {r : Option EspErr} {d' : Rtdb σ}
    (hret : postData W d path json_str = (r, d')) :
    ((children d'.app.world).length ≤ (children d.app.world).length + 1 ∧
      (r = some ESP_OK →
        (children d'.app.world).length = (children d.app.world).length + 1)) ↔
      ResendsSafely (fatesBetween fates (attempts d.app.world) (attempts d'.app.world)) := by
  obtain ⟨ret, hok, hadded⟩ := h.call (sendData_path hret)
  rw [resendsSafely_iff hadded.lastOnly, hadded.added, List.length_append, List.length_replicate]
  constructor
  · rintro ⟨hle, -⟩
    omega
  · intro hle
    refine ⟨by omega, fun hsome => ?_⟩
    have hpos : 0 < (fatesBetween fates (attempts d.app.world)
        (attempts d'.app.world)).countP Fate.applies :=
      List.countP_pos_iff.mpr ⟨.applied, hadded.applied (hok hsome), rfl⟩
    omega

end Post

/-! ### A database of children -/

/-- A server at `https://db` with the children of one node and the number of the next attempt. It
adds what is posted to the node, as the fate of the attempt says; other requests are answered with
a 404. -/
def fateServer (path : Bytes) (fates : ℕ → Fate) : World (List Bytes × ℕ) where
  init w _ := (true, w)
  setUrl w _ := (true, w)
  setMethod w _ := (true, w)
  setPostField w _ := (true, w)
  perform w c :=
    if c.method = .post ∧ pathIn (ascii "https://db") c.url = some path then
      match fates w.2 with
      | .applied => (.fresh ESP_OK 200 [], w.1 ++ [c.post_field], w.2 + 1)
      | .appliedAckLost => (⟨[.error], ESP_FAIL, -1, false⟩, w.1 ++ [c.post_field], w.2 + 1)
      | .notApplied => (.fresh ESP_OK 503 [], w.1, w.2 + 1)
    else (.fresh ESP_OK 404 [], w)
  time _ := 0
  printReal := id

/-- A client of this server. -/
def fateClient (path : Bytes) (fates : ℕ → Fate) : Rtdb (List Bytes × ℕ) :=
  ⟨.of (ascii "https://db"), App.new (fateServer path fates) (ascii "key")
    (zeroed HTTP_RECV_BUFFER_SIZE) ([], 0), []⟩

theorem posts_fateServer {path : CStr} (hpath : PathText path.bytes) (fates : ℕ → Fate)
    (json_str : CStr) :
    Posts (fateServer path.bytes fates) Prod.fst Prod.snd fates (.of (ascii "https://db")) path
      json_str (fateClient path.bytes fates).app.login_url
      (fateClient path.bytes fates).app.auth_url where
  init _ _ := rfl
  setUrl _ _ := ⟨rfl, rfl⟩
  setMethod _ _ := ⟨rfl, rfl⟩
  setPostField _ _ := ⟨rfl, rfl⟩
  signIn w c _ hurl := by
    have hother : pathIn (ascii "https://db") c.url = none := by
      rcases hurl with hurl | hurl <;> rw [hurl] <;> rfl
    simp only [fateServer, hother, reduceCtorEq, and_false, if_false]
  post w c query hmethod hnames hbody := by
    have hhere : c.method = .post ∧ pathIn (ascii "https://db") c.url = some path.bytes :=
      ⟨hmethod, pathIn_of_names hpath hnames⟩
    simp only [fateServer, if_pos hhere, hbody]
    cases fates w.2 <;> simp [Fate.applies, Fate.Brings, Attempt.succeeded, Attempt.fresh, ESP_OK,
      ESP_FAIL]

/-- The first attempt is refused, the second one is applied. -/
def refusesFirst : ℕ → Fate
  | 0 => .notApplied
  | _ + 1 => .applied

theorem postData_adds_once_refused :
    (postData (fateServer (ascii "/h") refusesFirst) (fateClient (ascii "/h") refusesFirst)
        (.of (ascii "/h")) (.of (ascii "1"))).2.app.world.2 = 2 ∧
      (postData (fateServer (ascii "/h") refusesFirst) (fateClient (ascii "/h") refusesFirst)
        (.of (ascii "/h")) (.of (ascii "1"))).2.app.world.1.length ≤ 0 + 1 := by
  have hmade : (postData (fateServer (ascii "/h") refusesFirst)
      (fateClient (ascii "/h") refusesFirst) (.of (ascii "/h")) (.of (ascii "1"))).2.app.world.2
        = 2 := by
    decide +kernel
  have hsafe : ResendsSafely (fatesBetween refusesFirst 0 (postData
      (fateServer (ascii "/h") refusesFirst) (fateClient (ascii "/h") refusesFirst)
      (.of (ascii "/h")) (.of (ascii "1"))).2.app.world.2) := by
    rw [hmade]
    unfold ResendsSafely
    decide
  exact ⟨hmade, ((postData_adds_once_iff (fateClient (ascii "/h") refusesFirst) (.of (ascii "/h"))
    (.of (ascii "1")) (@posts_fateServer (.of (ascii "/h")) (by decide) refusesFirst _)
    rfl).mpr hsafe).1⟩

/-- The acknowledgement of the first attempt is lost, the second one is applied. -/
def losesAck : ℕ → Fate
  | 0 => .appliedAckLost
  | _ + 1 => .applied

/-- **Applied twice.** The first attempt is applied and its acknowledgement is lost; the second
one is applied too. -/
theorem post_applied_twice :
    Posts (fateServer (ascii "/h") losesAck) Prod.fst Prod.snd losesAck (.of (ascii "https://db"))
        (.of (ascii "/h")) (.of (ascii "1")) (fateClient (ascii "/h") losesAck).app.login_url
        (fateClient (ascii "/h") losesAck).app.auth_url ∧
      ¬ ((postData (fateServer (ascii "/h") losesAck) (fateClient (ascii "/h") losesAck)
          (.of (ascii "/h")) (.of (ascii "1"))).2.app.world.1.length
          ≤ (fateClient (ascii "/h") losesAck).app.world.1.length + 1) :=
  ⟨@posts_fateServer (.of (ascii "/h")) (by decide) losesAck _, by decide +kernel⟩

end PppAmb
