import Mathlib.Data.List.Perm.Subperm
import PppAmb.Shallow
import PppAmb.Writes

/-!
# Trimming the Oldest Days

`trimDays` lists the names of the children, takes the first ones in lexicographic order and
deletes them one by one. It looks neither at the verdict of the JSON reader nor at what
becomes of a deletion.

What is assumed of the database is collected in `ServesDays`: a shallow listing brings the names
in any order, and a `DELETE` of a path below the root is applied or not. Keys are put into the
path as they are; `named` is the child that the database takes the last part of a path for.

## Main results

* `trimDays_ok_cases`: the ways in which a trim returns `ESP_OK`.
* `deleteDays_size`, `deleteDays_erase`: what the deletions remove.
* `trimDays_trims_iff`: a trim that returns `ESP_OK` has removed the right days exactly when
  there was nothing to trim, or all names were read and every deletion was applied.
* `dropped_deletion`: a deletion that fails is not noticed.
-/

namespace PppAmb

section Days

variable {σ υ : Type} {W : World σ} {db : σ → Store Bytes υ} {base root_path : CStr}
  {named : Bytes → Option Bytes} {login_url auth_url : Bytes}

/-! ### What is assumed of the outside -/

/-- What the database answers when it lists the names of its children, in any order; a node
without children may be printed as null. -/
def ListsNames (body : Bytes) (keys : List Bytes) : Prop :=
  (∃ names : List ListedName, (names.map ListedName.key).Perm keys ∧ body = shallowListing names) ∨
    keys = [] ∧ body = ascii "null"

/-- **What the database does.** A shallow `GET` of the root leaves it as it is, and with status 200
it brings the names of all children. A `DELETE` below the root is applied or not, and if it
succeeds it was applied; it removes at most the child that the path names. A text that does not
name the child with this key names one with a shorter key, as unescaping does, or none. -/
structure ServesDays (W : World σ) (db : σ → Store Bytes υ) (base root_path : CStr)
    (named : Bytes → Option Bytes) (login_url auth_url : Bytes) : Prop
    extends KeepsDb W db login_url auth_url where
  list : ∀ w c query, c.method = .get → Names c.url base.bytes root_path.bytes query →
    parameter query (ascii "shallow") = some (ascii "true") →
      db (W.perform w c).2 = db w ∧
        ((W.perform w c).1.err = ESP_OK → (W.perform w c).1.status_code = 200 →
          ListsNames (W.perform w c).1.body (db w).keys)
  delete : ∀ w c name query, c.method = .delete →
    Names c.url base.bytes (root_path.bytes ++ ascii "/" ++ name) query →
      (db (W.perform w c).2 = db w ∨ db (W.perform w c).2 = (db w).erase (named name).toList) ∧
        ((W.perform w c).1.succeeded = true →
          db (W.perform w c).2 = (db w).erase (named name).toList)
  shorter : ∀ name key, named name = some key → key = name ∨ key.length < name.length

/-- A deletion of a day names this day, or a child with a shorter key, or none. -/
theorem ServesDays.shorter_day
    (h : ServesDays W db base root_path named login_url auth_url) (day key : Bytes)
    (hkey : named (cString day) = some key) : key = day ∨ key.length < day.length := by
  have hstart : cString day <+: day := List.takeWhile_prefix _
  have hle := hstart.length_le
  rcases h.shorter _ _ hkey with rfl | hlt
  · rcases Nat.lt_or_eq_of_le hle with hlt | heq
    · exact Or.inr hlt
    · exact Or.inl (hstart.eq_of_length heq)
  · exact Or.inr (by omega)

/-! ### The listing -/

/-- The request for the listing. -/
def Rtdb.listDays (W : World σ) (d : Rtdb σ) (root_path : CStr) : HttpRet × Rtdb σ :=
  (d.setHeader (ascii "content-type") (ascii "application/json")).performRequest W
    ((shallowTarget d.base_database_url root_path).url d.app.auth_token) .get []

/-- The client when the listing has been read. -/
def Rtdb.afterListing (W : World σ) (d : Rtdb σ) (root_path : CStr) : Rtdb σ :=
  (d.listDays W root_path).2.parseResponse.2

/-- The body of the listing. -/
def listingBody (W : World σ) (d : Rtdb σ) (root_path : CStr) : Bytes :=
  match (d.listDays W root_path).2.app.sent.getLast? with
  | some e => e.attempt.body
  | none => []

/-- The listing has been received: after a 200 the array holds the first 16383 bytes of the
body. -/
def DaysReceived (W : World σ) (d : Rtdb σ) (root_path : CStr) : Prop :=
  (d.listDays W root_path).1.is200 = true →
    cString (d.listDays W root_path).2.app.recv.local_response_buffer
      = (listingBody W d root_path).take 16383

/-- What a database request leaves alone. -/
theorem frame_performRequest (d : Rtdb σ) (url : Bytes) (method : Method) (post_field : Bytes) :
    (d.performRequest W url method post_field).2.base_database_url = d.base_database_url ∧
      (d.performRequest W url method post_field).2.app.login_url = d.app.login_url ∧
      (d.performRequest W url method post_field).2.app.auth_url = d.app.auth_url := by
  have hcred := credentials_performRequest (W := W) d.app (cString url) method post_field
  exact ⟨rfl, congrArg Credentials.login_url hcred, congrArg Credentials.auth_url hcred⟩

/-- The listing leaves the database alone and brings the names of all children. -/
theorem ServesDays.listed {d : Rtdb σ}
    (h : ServesDays W db d.base_database_url root_path named login_url auth_url) :
    db (d.afterListing W root_path).app.world = db d.app.world ∧
      ((d.listDays W root_path).1.is200 = true →
        ListsNames (listingBody W d root_path) (db d.app.world).keys) := by
  obtain ⟨query, hnames, hshallow⟩ :=
    names_shallowTarget d.base_database_url root_path d.app.auth_token
  obtain ⟨hsame, hdone⟩ := request_attempts h.onlyAttempts (S := fun t => t = db d.app.world)
    (R := fun _ a => a.status_code = 200 → ListsNames a.body (db d.app.world).keys)
    (fun w c hcarry hw => by
      obtain ⟨hkeep, hbody⟩ := h.list w c query hcarry.2.1 (hcarry.1 ▸ hnames) hshallow
      rw [hw] at hkeep hbody
      refine ⟨hkeep, fun hsucc hstatus => hbody ?_ hstatus⟩
      simp only [Attempt.succeeded, decide_eq_true_eq] at hsucc
      exact hsucc.1)
    (s := (d.setHeader (ascii "content-type") (ascii "application/json")).app)
    (h.settersHold _ _) rfl
  refine ⟨hsame, fun h200 => ?_⟩
  obtain ⟨e, hlast, hcode, hlists⟩ := hdone (HttpRet.is2xx_of_is200 h200)
  have hbody : listingBody W d root_path = e.attempt.body := by
    simp only [listingBody, Rtdb.listDays, Rtdb.performRequest, hlast]
  simp only [HttpRet.is200, decide_eq_true_eq] at h200
  rw [hbody]
  exact hlists (hcode ▸ h200.2)

/-- The days that are deleted, from the names that were read. -/
def oldestDays (max_days : Int) (days : List Bytes) : List Bytes :=
  (days.mergeSort fun a b => a ≤ b).take (days.length - max_days.toNat)

/-- The ways in which a trim returns `ESP_OK`: there are not too many names, or the oldest days
have been gone through. -/
theorem trimDays_ok_cases {d d' : Rtdb σ} {max_days : Int} (hmax : 0 < max_days)
    (hret : trimDays W d root_path max_days = (some ESP_OK, d')) :
    (d.listDays W root_path).1.is200 = true ∧ ∃ obj,
      parse (cString (d.listDays W root_path).2.app.recv.local_response_buffer) = some obj ∧
      ((obj.isObject = false ∨
          ∃ days, obj.getMemberNames = some days ∧ (days.length : Int) ≤ max_days) ∧
        d' = d.afterListing W root_path ∨
      ∃ days, obj.getMemberNames = some days ∧ max_days < days.length ∧
        deleteDays W root_path (oldestDays max_days days) (d.afterListing W root_path)
          = (some ESP_OK, d')) := by
  have hlist : (d.setHeader (ascii "content-type") (ascii "application/json")).performRequest W
      ((shallowTarget d.base_database_url root_path).url d.app.auth_token) .get []
        = d.listDays W root_path := rfl
  rw [trimDays, if_neg (by omega)] at hret
  simp only [hlist] at hret
  cases h200 : (d.listDays W root_path).1.is200 with
  | false =>
      rw [if_pos (by simp [h200])] at hret
      exact absurd (Option.some.inj (Prod.mk.inj hret).1) (by decide)
  | true =>
      rw [if_neg (by simp [h200])] at hret
      refine ⟨rfl, ?_⟩
      have hparse : (d.listDays W root_path).2.parseResponse.1
          = parse (cString (d.listDays W root_path).2.app.recv.local_response_buffer) := rfl
      rcases hresp : (d.listDays W root_path).2.parseResponse with ⟨_ | obj, d₁⟩
      · simp [hresp] at hret
      · have hd₁ : d₁ = d.afterListing W root_path := by rw [Rtdb.afterListing, hresp]
        rw [hresp] at hparse
        refine ⟨obj, hparse.symm, ?_⟩
        simp only [hresp] at hret
        cases hkind : obj.isObject with
        | false =>
            simp only [hkind, Bool.false_eq_true, not_false_eq_true, if_true, Prod.mk.injEq] at hret
            exact Or.inl ⟨Or.inl rfl, hret.2 ▸ hd₁⟩
        | true =>
            simp only [hkind, not_true_eq_false, if_false] at hret
            cases hnames : obj.getMemberNames with
            | none => simp [hnames] at hret
            | some days =>
                simp only [hnames] at hret
                by_cases hfew : (days.length : Int) ≤ max_days
                · rw [if_pos hfew] at hret
                  exact Or.inl ⟨Or.inr ⟨days, rfl, hfew⟩, (Prod.mk.inj hret).2 ▸ hd₁⟩
                · rw [if_neg hfew] at hret
                  exact Or.inr ⟨days, rfl, by omega, hd₁ ▸ hret⟩

/-! ### The deletions -/

/-- One round of attempts to delete a child. -/
def Rtdb.deleteOnce (W : World σ) (d : Rtdb σ) (path : CStr) : HttpRet × Rtdb σ :=
  d.setDeleteHeaders.performRequest W
    ((deleteTarget d.base_database_url path).url d.app.auth_token) .delete []

/-- The database after a deletion, and the URLs of the client. -/
structure Deleted (db : σ → Store Bytes υ) (keys : List Bytes) (d d' : Rtdb σ) : Prop where
  effect : db d'.app.world = db d.app.world ∨ db d'.app.world = (db d.app.world).erase keys
  base : d'.base_database_url = d.base_database_url
  login_url : d'.app.login_url = d.app.login_url
  auth_url : d'.app.auth_url = d.app.auth_url

theorem Deleted.of_eq {keys : List Bytes} {d d' : Rtdb σ}
    (hworld : db d'.app.world = db d.app.world)
    (hbase : d'.base_database_url = d.base_database_url)
    (hlogin : d'.app.login_url = d.app.login_url) (hauth : d'.app.auth_url = d.app.auth_url) :
    Deleted db keys d d' :=
  ⟨Or.inl hworld, hbase, hlogin, hauth⟩

theorem Deleted.trans {keys : List Bytes} {d d' d'' : Rtdb σ} (h : Deleted db keys d d')
    (h' : Deleted db keys d' d'') : Deleted db keys d d'' := by
  refine ⟨?_, h'.base.trans h.base, h'.login_url.trans h.login_url, h'.auth_url.trans h.auth_url⟩
  rcases h.effect with hold | hgone
  · rw [← hold]
    exact h'.effect
  · rcases h'.effect with hold' | hgone'
    · exact Or.inr (hold'.trans hgone)
    · rw [hgone, erase_erase] at hgone'
      exact Or.inr hgone'

theorem ServesDays.deleteOnce {d : Rtdb σ} {day : Bytes}
    (h : ServesDays W db d.base_database_url root_path named login_url auth_url) :
    Deleted db (named (cString day)).toList d (d.deleteOnce W (childPath root_path day)).2 := by
  obtain ⟨query, hnames⟩ := names_deleteTarget d.base_database_url (childPath root_path day)
    d.app.auth_token
  rw [childPath_bytes] at hnames
  obtain ⟨hbase, hlogin, hauth⟩ := frame_performRequest (W := W) d.setDeleteHeaders
    ((deleteTarget d.base_database_url (childPath root_path day)).url d.app.auth_token) .delete []
  refine ⟨?_, hbase, hlogin, hauth⟩
  refine (request_attempts h.onlyAttempts (S := fun t => t = db d.app.world ∨
    t = (db d.app.world).erase (named (cString day)).toList) (R := fun _ _ => True)
    (fun w c hcarry hw => ⟨?_, fun _ => trivial⟩) (s := d.setDeleteHeaders.app)
    (h.settersHold _ _) (Or.inl rfl)).1
  -- an attempt may come after one that was applied without being acknowledged
  have herase : (db w).erase (named (cString day)).toList
      = (db d.app.world).erase (named (cString day)).toList := by
    rcases hw with hw | hw <;> simp [hw]
  rcases (h.delete w c _ query hcarry.2.1 (hcarry.1 ▸ hnames)).1 with hold | hgone
  · rwa [hold]
  · exact Or.inr (hgone.trans herase)

/-- **One deletion** is applied or not, whatever it reports. -/
theorem ServesDays.deleteData {d d' : Rtdb σ} {day : Bytes} {err : EspErr}
    (h : ServesDays W db d.base_database_url root_path named d.app.login_url d.app.auth_url)
    (hret : deleteData W d (childPath root_path day) = (some err, d')) :
    Deleted db (named (cString day)).toList d d' := by
  set d₀ := d.onApp fun s => s.setHttpTimeoutMs LONG_TIMEOUT_MS with hd₀
  have hstart : Deleted db (named (cString day)).toList d d₀ := .of_eq rfl rfl rfl rfl
  have hfirst : Deleted db (named (cString day)).toList d
      (d₀.deleteOnce W (childPath root_path day)).2 :=
    hstart.trans (ServesDays.deleteOnce (d := d₀) h)
  have hend : ∀ {d₁ : Rtdb σ}, Deleted db (named (cString day)).toList d d₁ →
      Deleted db (named (cString day)).toList d
        (d₁.onApp App.restoreDefaultHttpTimeout).clearHTTPBuffer :=
    fun h => h.trans (.of_eq rfl rfl rfl rfl)
  have honce : d₀.setDeleteHeaders.performRequest W
      ((deleteTarget d.base_database_url (childPath root_path day)).url d.app.auth_token) .delete []
        = d₀.deleteOnce W (childPath root_path day) := rfl
  simp only [PppAmb.deleteData, ← hd₀, honce] at hret
  generalize d₀.deleteOnce W (childPath root_path day) = r at hfirst hret
  split at hret
  · cases hrenew : r.2.renew (forceRefreshAuth W) with
    | none => simp [hrenew] at hret
    | some d₂ =>
        simp only [hrenew, Prod.mk.injEq] at hret
        obtain ⟨⟨err', app⟩, hcall, rfl⟩ := Option.map_eq_some_iff.mp hrenew
        have hkeeps : KeepsDb W db r.2.app.login_url r.2.app.auth_url := by
          rw [hfirst.login_url, hfirst.auth_url]
          exact h.toKeepsDb
        have hleaves := forceRefreshAuth_leavesDb hkeeps.signsIn hcall
        have hsecond := hfirst.trans
          (@Deleted.of_eq _ _ db _ r.2 { r.2 with app := app } hleaves.same rfl hleaves.login_url
            hleaves.auth_url)
        have hserves : ServesDays W db ({ r.2 with app := app } : Rtdb σ).base_database_url
            root_path named d.app.login_url d.app.auth_url := by
          rw [hsecond.base]
          exact h
        rw [← hret.2]
        exact hend (hsecond.trans hserves.deleteOnce)
  · rw [← (Prod.mk.inj hret).2]
    exact hend hfirst

/-- Each deletion of the days has removed its day, and nothing else. -/
def AllApplied (W : World σ) (db : σ → Store Bytes υ) (root_path : CStr) :
    List Bytes → Rtdb σ → Prop
  | [], _ => True
  | day :: days, d =>
      db (PppAmb.deleteData W d (childPath root_path day)).2.app.world
          = (db d.app.world).erase [day] ∧
        AllApplied W db root_path days (PppAmb.deleteData W d (childPath root_path day)).2

/-- If each is applied, the days are gone. -/
theorem deleteDays_erase {days : List Bytes} {d d' : Rtdb σ}
    (hret : deleteDays W root_path days d = (some ESP_OK, d'))
    (happlied : AllApplied W db root_path days d) :
    db d'.app.world = (db d.app.world).erase days := by
  induction days generalizing d with
  | nil =>
      obtain ⟨-, rfl⟩ := Prod.mk.inj hret
      rw [erase_nil]
  | cons day days ih =>
      obtain ⟨hfirst, hrest⟩ := happlied
      rw [deleteDays] at hret
      rcases hdelete : PppAmb.deleteData W d (childPath root_path day) with ⟨_ | err, d₁⟩
      · simp [hdelete] at hret
      · rw [hdelete] at hret hfirst hrest
        rw [ih hret hrest, hfirst, erase_erase_append]
        rfl

/-- What the deletions have removed if the database has shrunk by their number: each of them
has named a child of its own. -/
structure EachRemoved (W : World σ) (db : σ → Store Bytes υ) (root_path : CStr)
    (named : Bytes → Option Bytes) (days : List Bytes) (d d' : Rtdb σ) (keys : List Bytes) :
    Prop where
  named : days.map named = keys.map some
  nodup : keys.Nodup
  removed : ∀ key ∈ keys, key ∈ (db d.app.world).keys ∧ key ∉ (db d'.app.world).keys
  applied : keys = days → AllApplied W db root_path days d

/-- A deletion removes nothing, or the child its path names. -/
theorem Deleted.named_cases {name : Bytes} {d d' : Rtdb σ}
    (h : Deleted db (named name).toList d d') :
    db d'.app.world = db d.app.world ∨
      ∃ key, named name = some key ∧ db d'.app.world = (db d.app.world).erase [key] := by
  rcases h.effect with hold | hgone
  · exact Or.inl hold
  · cases hname : named name with
    | none => exact Or.inl (by simpa [hname] using hgone)
    | some key => exact Or.inr ⟨key, rfl, by simpa [hname] using hgone⟩

/-- Deletions remove at most one child each. -/
theorem deleteDays_size {days : List Bytes} {d d' : Rtdb σ}
    (h : ServesDays W db d.base_database_url root_path named d.app.login_url d.app.auth_url)
    (hret : deleteDays W root_path days d = (some ESP_OK, d')) :
    (∀ key ∈ (db d'.app.world).keys, key ∈ (db d.app.world).keys) ∧
      (db d.app.world).size ≤ (db d'.app.world).size + days.length ∧
      ((db d.app.world).size = (db d'.app.world).size + days.length →
        ∃ keys, EachRemoved W db root_path (fun day => named (cString day)) days d d' keys) := by
  induction days generalizing d with
  | nil =>
      obtain ⟨-, rfl⟩ := Prod.mk.inj hret
      exact ⟨fun _ => id, le_rfl, fun _ => ⟨[], rfl, List.nodup_nil, by simp, fun _ => trivial⟩⟩
  | cons day days ih =>
      rw [deleteDays] at hret
      rcases hdelete : PppAmb.deleteData W d (childPath root_path day) with ⟨_ | err, d₁⟩
      · simp [hdelete] at hret
      rw [hdelete] at hret
      have hdeleted := h.deleteData hdelete
      rw [← hdeleted.base, ← hdeleted.login_url, ← hdeleted.auth_url] at h
      obtain ⟨hsub, hle, hall⟩ := ih h hret
      rcases hdeleted.named_cases with hold | ⟨key, hname, hgone⟩
      · rw [hold] at hsub hle
        refine ⟨hsub, by rw [List.length_cons]; omega, fun hshrunk => ?_⟩
        rw [List.length_cons] at hshrunk
        omega
      · have hsize := size_erase_singleton (db d.app.world) key
        have hkeys : ∀ k, k ∈ (db d₁.app.world).keys ↔ k ∈ (db d.app.world).keys ∧ k ≠ key := by
          intro k
          rw [hgone, keys_erase]
          simp
        rw [← hgone] at hsize
        have hone : (db d.app.world).size ≤ (db d₁.app.world).size + 1 := by
          rw [← hsize]
          split <;> omega
        refine ⟨fun k hk => ((hkeys k).mp (hsub k hk)).1, by rw [List.length_cons]; omega,
          fun hshrunk => ?_⟩
        rw [List.length_cons] at hshrunk
        obtain ⟨keys, hnamed, hnodup, hremoved, happlied⟩ := hall (by omega)
        have hmem : key ∈ (db d.app.world).keys := by
          by_contra hno
          rw [if_neg hno] at hsize
          omega
        refine ⟨key :: keys, by rw [List.map_cons, List.map_cons, hname, hnamed],
          List.nodup_cons.mpr ⟨fun hin => ((hkeys key).mp (hremoved key hin).1).2 rfl, hnodup⟩,
          ?_, fun heq => ?_⟩
        · intro k hk
          rcases List.mem_cons.mp hk with rfl | hk
          · exact ⟨hmem, fun hin => ((hkeys k).mp (hsub k hin)).2 rfl⟩
          · exact ⟨((hkeys k).mp (hremoved k hk).1).1, (hremoved k hk).2⟩
        · obtain ⟨rfl, hrest⟩ := List.cons.inj heq
          refine ⟨by rw [hdelete]; exact hgone, ?_⟩
          rw [hdelete]
          exact happlied hrest

/-- If paths name shorter keys only, those that are named in some order are named in place. -/
theorem eq_of_named (hshorter : ∀ day key, named day = some key → key = day ∨
      key.length < day.length) {days keys : List Bytes} (hmap : days.map named = keys.map some)
    (hperm : keys.Perm days) : keys = days := by
  have hsum : ∀ {days keys : List Bytes}, days.map named = keys.map some →
      (keys.map List.length).sum ≤ (days.map List.length).sum ∧
        ((days.map List.length).sum ≤ (keys.map List.length).sum → keys = days) := by
    intro days
    induction days with
    | nil =>
        intro keys hmap
        have hnil : keys = [] := by simpa using hmap.symm
        rw [hnil]
        exact ⟨le_rfl, fun _ => rfl⟩
    | cons day days ih =>
        intro keys hmap
        rcases keys with _ | ⟨key, keys⟩
        · exact absurd hmap (by simp)
        · rw [List.map_cons, List.map_cons, List.cons.injEq] at hmap
          obtain ⟨hle, heq⟩ := ih hmap.2
          simp only [List.map_cons, List.sum_cons]
          rcases hshorter day key hmap.1 with rfl | hlt
          · exact ⟨by omega, fun hge => by rw [heq (by omega)]⟩
          · exact ⟨by omega, fun hge => by omega⟩
  exact (hsum hmap).2 (hperm.map List.length).sum_eq.ge

/-! ### The trim -/

/-- At most `max_days` children are left; the first ones in lexicographic order are gone, and
the others are as they were. -/
structure DaysTrimmed (max_days : Int) (before after : Store Bytes υ) : Prop where
  few : (after.size : Int) ≤ max_days
  oldest : after = before.dropFirst (before.size - max_days.toNat)

theorem daysTrimmed_same_iff {max_days : Int} (hmax : 0 < max_days) (before : Store Bytes υ) :
    DaysTrimmed max_days before before ↔ (before.size : Int) ≤ max_days := by
  refine ⟨fun h => h.few, fun hfew => ⟨hfew, ?_⟩⟩
  have hzero : before.size - max_days.toNat = 0 := by omega
  rw [hzero]
  rfl

theorem oldestDays_sorted (max_days : Int) {days : List Bytes} (h : days.Pairwise (· < ·)) :
    oldestDays max_days days = days.take (days.length - max_days.toNat) := by
  rw [oldestDays, List.mergeSort_of_pairwise]
  exact h.imp fun hlt => decide_eq_true (List.le_of_lt hlt)

/-- A trim for which too many names have been read, in order. -/
theorem trimDays_of_names {d : Rtdb σ} {max_days : Int} (days : List Bytes) (hmax : 0 < max_days)
    (h200 : (d.listDays W root_path).1.is200 = true)
    (hobj : (d.listDays W root_path).2.parseResponse.1.map Value.isObject = some true)
    (hnames : (d.listDays W root_path).2.parseResponse.1.bind Value.getMemberNames = some days)
    (hsorted : days.Pairwise (· < ·)) (hmany : max_days < days.length) :
    trimDays W d root_path max_days
      = deleteDays W root_path (days.take (days.length - max_days.toNat))
          (d.afterListing W root_path) := by
  have hlist : (d.setHeader (ascii "content-type") (ascii "application/json")).performRequest W
      ((shallowTarget d.base_database_url root_path).url d.app.auth_token) .get []
        = d.listDays W root_path := rfl
  have hold := oldestDays_sorted max_days hsorted
  rw [trimDays, if_neg (by omega)]
  simp only [hlist]
  rw [if_neg (by simp [h200]), Rtdb.afterListing]
  rcases hresp : (d.listDays W root_path).2.parseResponse with ⟨_ | obj, d₁⟩
  · simp [hresp] at hobj
  · rw [hresp] at hobj hnames
    have hkind : obj.isObject = true := Option.some.inj hobj
    have hdays : obj.getMemberNames = some days := hnames
    simp only [hkind, not_true_eq_false, if_false, hdays]
    rw [if_neg (by omega), ← hold, oldestDays]

theorem afterListing_frame (d : Rtdb σ) (root_path : CStr) :
    (d.afterListing W root_path).base_database_url = d.base_database_url ∧
      (d.afterListing W root_path).app.login_url = d.app.login_url ∧
      (d.afterListing W root_path).app.auth_url = d.app.auth_url :=
  frame_performRequest (W := W) (d.setHeader (ascii "content-type") (ascii "application/json"))
    ((shallowTarget d.base_database_url root_path).url d.app.auth_token) .get []

/-- The deletions, when the names have been read in order and there are too many of them. -/
theorem deleteDays_trims_iff {d d' : Rtdb σ} {max_days : Int} {days : List Bytes}
    (h : ServesDays W db d.base_database_url root_path named d.app.login_url d.app.auth_url)
    (hmax : 0 < max_days) (hsorted : days.Pairwise (· < ·)) (hmany : max_days < days.length)
    (hle : days.length ≤ (db d.app.world).size)
    (hall : days.length = (db d.app.world).size → days = (db d.app.world).keys)
    (hret : deleteDays W root_path (oldestDays max_days days) d = (some ESP_OK, d')) :
    DaysTrimmed max_days (db d.app.world) (db d'.app.world) ↔
      days.length = (db d.app.world).size ∧ AllApplied W db root_path
        ((db d.app.world).keys.take ((db d.app.world).size - max_days.toNat)) d := by
  have hlen : (oldestDays max_days days).length = days.length - max_days.toNat := by
    rw [oldestDays_sorted max_days hsorted, List.length_take]
    omega
  constructor
  · rintro ⟨hfew, holdest⟩
    obtain ⟨-, hshrinks, heach⟩ := deleteDays_size h hret
    rw [hlen] at hshrinks heach
    have hcount : days.length = (db d.app.world).size := by omega
    have hkeys := hall hcount
    have hold : oldestDays max_days days
        = (db d.app.world).keys.take ((db d.app.world).size - max_days.toNat) := by
      rw [oldestDays_sorted max_days hsorted, hcount, hkeys]
    have hsize : (db d'.app.world).size = max_days.toNat := by
      rw [holdest, size_dropFirst]
      omega
    obtain ⟨keys, hnamed, hnodup, hremoved, happlied⟩ := heach (by omega)
    -- the keys that were removed are the first ones, so each path has named its own child
    have hsub : keys ⊆ oldestDays max_days days := by
      intro key hkey
      obtain ⟨hin, hout⟩ := hremoved key hkey
      rw [holdest, keys_dropFirst] at hout
      rw [← List.take_append_drop ((db d.app.world).size - max_days.toNat) (db d.app.world).keys,
        List.mem_append] at hin
      rw [hold]
      exact hin.resolve_right hout
    have hperm : keys.Perm (oldestDays max_days days) := by
      refine (List.subperm_of_subset hnodup hsub).perm_of_length_le ?_
      have hmaplen := congrArg List.length hnamed
      rw [List.length_map, List.length_map] at hmaplen
      exact hmaplen.le
    rw [hold] at hperm hnamed happlied
    exact ⟨hcount, happlied (eq_of_named h.shorter_day hnamed hperm)⟩
  · rintro ⟨hcount, happlied⟩
    have hold : oldestDays max_days days
        = (db d.app.world).keys.take ((db d.app.world).size - max_days.toNat) := by
      rw [oldestDays_sorted max_days hsorted, hcount, hall hcount]
    have hfirst : (db d.app.world).keys.take ((db d.app.world).size - max_days.toNat)
        = ((db d.app.world).entries.take ((db d.app.world).size - max_days.toNat)).map Prod.fst :=
      List.map_take.symm
    rw [hold] at hret
    have herase := deleteDays_erase hret happlied
    rw [hfirst, erase_firstKeys] at herase
    refine ⟨?_, herase⟩
    rw [herase, size_dropFirst]
    omega

/-- **The trim.** A trim that returns `ESP_OK` has left the last `max_days` children exactly
when there were not more, or when all names were read, for which at most the last five bytes
of the listing may be missing, and every deletion was applied. -/
theorem trimDays_trims_iff {d d' : Rtdb σ} {max_days : Int}
    (h : ServesDays W db d.base_database_url root_path named d.app.login_url d.app.auth_url)
    (hmax : 0 < max_days) (hreceived : DaysReceived W d root_path)
    (hret : trimDays W d root_path max_days = (some ESP_OK, d')) :
    DaysTrimmed max_days (db d.app.world) (db d'.app.world) ↔
      ((db d.app.world).size : Int) ≤ max_days ∨
        ((listingBody W d root_path).length ≤ 16388 ∧ AllApplied W db root_path
          ((db d.app.world).keys.take ((db d.app.world).size - max_days.toNat))
          (d.afterListing W root_path)) := by
  obtain ⟨h200, obj, hparse, hcases⟩ := trimDays_ok_cases hmax hret
  obtain ⟨hsame, hlists⟩ := h.listed
  obtain ⟨hbase, hlogin, hauth⟩ := afterListing_frame (W := W) d root_path
  rw [hreceived h200] at hparse
  have hlength : (db d.app.world).keys.length = (db d.app.world).size := List.length_map _
  rcases hlists h200 with ⟨names, hperm, hbody⟩ | ⟨hempty, hbody⟩
  · obtain ⟨out, hout, hsorted, hcount, hall⟩ := shallow_names_cut hperm
      (List.pairwise_map.mpr (db d.app.world).increasing) 16382
    rw [hbody, hout] at hparse
    obtain rfl := Option.some.inj hparse
    have hnames : names.length = (db d.app.world).size := by
      rw [← hlength, ← hperm.length_eq, List.length_map]
    have hwithin := namesWithin_le 16382 names
    -- all names are read exactly when the listing is short enough
    have hread : out.length = (db d.app.world).size ↔
        (db d.app.world).size = 0 ∨ (listingBody W d root_path).length ≤ 16388 := by
      rw [hcount, hbody, ← hnames]
      exact namesWithin_eq_length_of_listing 16382 names
    rcases hcases with ⟨hfew, rfl⟩ | ⟨days, hdays, hmany, hdelete⟩
    · have hfew' : (out.length : Int) ≤ max_days := by
        rcases hfew with hkind | ⟨days, hdays, hle⟩
        · exact absurd hkind (by simp [Value.isObject])
        · obtain rfl : out.map Prod.fst = days := Option.some.inj hdays
          simpa using hle
      rw [hsame, daysTrimmed_same_iff hmax]
      refine ⟨Or.inl, fun hcond => hcond.elim id fun hshort => ?_⟩
      have hcount' := hread.mpr (Or.inr hshort.1)
      omega
    · obtain rfl : out.map Prod.fst = days := Option.some.inj hdays
      rw [List.length_map] at hmany
      rw [← hbase, ← hlogin, ← hauth] at h
      have hiff := deleteDays_trims_iff h hmax hsorted (by rwa [List.length_map])
        (by rw [List.length_map, hsame]; omega)
        (fun hn => by
          rw [List.length_map, hsame] at hn
          rw [hsame]
          exact hall (by omega)) hdelete
      rw [hsame, List.length_map] at hiff
      rw [hiff, hread]
      constructor
      · rintro ⟨hzero | hshort, happlied⟩
        · omega
        · exact Or.inr ⟨hshort, happlied⟩
      · rintro (hfew | ⟨hshort, happlied⟩)
        · omega
        · exact ⟨Or.inr hshort, happlied⟩
  · -- there are no children
    have hnull : parse ((ascii "null").take 16383) = some .nullValue := rfl
    rw [hbody, hnull] at hparse
    obtain rfl := Option.some.inj hparse
    have hzero : (db d.app.world).size = 0 := by rw [← hlength, hempty]; rfl
    rcases hcases with ⟨-, rfl⟩ | ⟨days, hdays, hmany, -⟩
    · rw [hsame, daysTrimmed_same_iff hmax, hzero]
      simp [hmax.le]
    · obtain rfl : [] = days := Option.some.inj hdays
      rw [List.length_nil] at hmany
      omega

end Days

/-! ### A trim of three days -/

/-- A database whose keys are plain texts. -/
structure PlainDays where
  store : Store Bytes Bytes
  plain : ∀ key ∈ store.keys, ∀ c ∈ key, isPlain c = true

/-- A plain name stands for itself. -/
def ListedName.plain (key : Bytes) (h : ∀ c ∈ key, isPlain c = true) : ListedName where
  raw := key
  key := key
  valid := isRawString_of_plain h
  decoded := decodeLoop_plain h

/-- The names of the days, the latest first. -/
def PlainDays.names (w : PlainDays) : List ListedName :=
  w.store.keys.reverse.attach.map fun key =>
    .plain key.1 (w.plain key.1 (List.mem_reverse.mp key.2))

def PlainDays.erase (w : PlainDays) (keys : List Bytes) : PlainDays where
  store := w.store.erase keys
  plain := fun key hkey => w.plain key (by
    rw [keys_erase] at hkey
    exact List.mem_of_mem_filter hkey)

/-- A database at a URL that lists its children, and answers with a 500 to the deletions that it
rejects. -/
def dayServer (base root_path : Bytes) (rejects : Bytes → Bool) : World PlainDays where
  init w _ := (true, w)
  setUrl w _ := (true, w)
  setMethod w _ := (true, w)
  setPostField w _ := (true, w)
  perform w c :=
    match c.method with
    | .get =>
        if pathIn base c.url = some root_path ∧
            parameter (queryOf c.url) (ascii "shallow") = some (ascii "true") then
          (.fresh ESP_OK 200 (shallowListing w.names), w)
        else (.fresh ESP_OK 400 [], w)
    | .delete =>
        match pathIn (base ++ root_path ++ ascii "/") c.url with
        | some name =>
            if rejects name then (.fresh ESP_OK 500 [], w)
            else (.fresh ESP_OK 200 (ascii "null"), w.erase [name])
        | none => (.fresh ESP_OK 400 [], w)
    | .post | .put | .patch => (.fresh ESP_OK 400 [], w)
  time _ := 0
  printReal := id

/-- The child that `dayServer` takes a text for: what stands before the first question mark or
hash, without `.json`. -/
def namedDay (name : Bytes) : Option Bytes :=
  (ascii ".json").isSuffixOf? ((name ++ ascii ".json").takeWhile fun b => b ≠ ch '?' ∧ b ≠ ch '#')

theorem pathIn_child {url base root_path name query : Bytes}
    (h : Names url base (root_path ++ ascii "/" ++ name) query) :
    pathIn (base ++ root_path ++ ascii "/") url = namedDay name := by
  rw [pathIn, h.below.eq_mark, isPrefixOf?_append, Option.bind_some,
    takeWhile_append_cons (by decide), namedDay]

theorem namedDay_shorter {name key : Bytes} (h : namedDay name = some key) :
    key = name ∨ key.length < name.length := by
  have hstart : key ++ ascii ".json" <+: name ++ ascii ".json" := by
    rw [List.isSuffixOf?_eq_some_iff_append_eq.mp h]
    exact List.takeWhile_prefix _
  have hle := hstart.length_le
  simp only [List.length_append, Nat.add_le_add_iff_right] at hle
  rcases Nat.lt_or_eq_of_le hle with hlt | heq
  · exact Or.inr hlt
  · exact Or.inl (List.append_cancel_right (hstart.eq_of_length (by simp [heq])))

theorem servesDays_dayServer (base root_path : CStr) (rejects : Bytes → Bool)
    (hpath : PathText root_path.bytes) (hmark : ch '?' ∉ base.bytes ++ root_path.bytes)
    (login_url auth_url : Bytes) :
    ServesDays (dayServer base.bytes root_path.bytes rejects) PlainDays.store base root_path
      namedDay login_url auth_url := by
  refine ⟨⟨⟨fun _ _ => rfl, fun _ _ => ⟨rfl, rfl⟩, fun _ _ => ⟨rfl, rfl⟩, fun _ _ => ⟨rfl, rfl⟩⟩,
    ?_⟩, ?_, ?_, fun _ _ => namedDay_shorter⟩
  · intro w c hmethod _
    simp [dayServer, hmethod]
  · intro w c query hmethod hnames hshallow
    have hkeys : w.names.map ListedName.key = w.store.keys.reverse := by
      simp [PlainDays.names, ListedName.plain, List.map_map, Function.comp_def]
    have hlisting : pathIn base.bytes c.url = some root_path.bytes ∧
        parameter (queryOf c.url) (ascii "shallow") = some (ascii "true") :=
      ⟨pathIn_of_names hpath hnames, by rw [queryOf_of_names hmark hnames, hshallow]⟩
    simp only [dayServer, hmethod, if_pos hlisting]
    refine ⟨trivial, fun _ _ => Or.inl ⟨w.names, ?_, Attempt.body_fresh _ _ _⟩⟩
    rw [hkeys]
    exact List.reverse_perm _
  · intro w c name query hmethod hnames
    simp only [dayServer, hmethod, pathIn_child hnames]
    cases namedDay name with
    | none =>
        exact ⟨Or.inl rfl, fun hsucc => absurd hsucc (by simp [Attempt.succeeded, Attempt.fresh])⟩
    | some key =>
        dsimp only
        split
        · exact ⟨Or.inl rfl, fun hsucc => absurd hsucc (by simp [Attempt.succeeded, Attempt.fresh])⟩
        · exact ⟨Or.inr rfl, fun _ => rfl⟩

/-- Three days. -/
def threeDays : PlainDays where
  store := ⟨[(ascii "2025-09-14", ascii "1"), (ascii "2025-09-15", ascii "2"),
    (ascii "2025-09-16", ascii "3")], by simp [Increasing]; decide⟩
  plain := by
    have hall : [ascii "2025-09-14", ascii "2025-09-15", ascii "2025-09-16"].all
        (fun key => key.all isPlain) = true := by decide
    exact fun key hkey c hc => List.all_eq_true.mp (List.all_eq_true.mp hall key hkey) c hc

/-- The database at `https://db/m`. -/
def mDays (rejects : Bytes → Bool) : World PlainDays :=
  dayServer (ascii "https://db") (ascii "/m") rejects

/-- A client of it, while it holds the three days. -/
def threeDaysClient (rejects : Bytes → Bool) : Rtdb PlainDays :=
  ⟨.of (ascii "https://db"), App.new (mDays rejects) (ascii "key") (zeroed HTTP_RECV_BUFFER_SIZE)
    threeDays, []⟩

theorem trimDays_leaves_one :
    (trimDays (mDays fun _ => false) (threeDaysClient fun _ => false) (.of (ascii "/m")) 1).1
        = some ESP_OK ∧
      DaysTrimmed 1 threeDays.store (trimDays (mDays fun _ => false)
        (threeDaysClient fun _ => false) (.of (ascii "/m")) 1).2.app.world.store := by
  have hok : (trimDays (mDays fun _ => false) (threeDaysClient fun _ => false)
      (.of (ascii "/m")) 1).1 = some ESP_OK := by
    rw [trimDays_of_names [ascii "2025-09-14", ascii "2025-09-15", ascii "2025-09-16"]]
    all_goals decide +kernel
  have hstore : ∀ {s t : Store Bytes Bytes}, s.entries = t.entries → s = t := by
    rintro ⟨s, _⟩ ⟨t, _⟩ rfl
    rfl
  have hserves : ServesDays (mDays fun _ => false) PlainDays.store
      (threeDaysClient fun _ => false).base_database_url (.of (ascii "/m")) namedDay
      (threeDaysClient fun _ => false).app.login_url
      (threeDaysClient fun _ => false).app.auth_url :=
    servesDays_dayServer (.of (ascii "https://db")) (.of (ascii "/m")) (fun _ => false) (by decide)
      (by decide) _ _
  refine ⟨hok, (trimDays_trims_iff hserves (by decide) (fun _ => ?_) (Prod.ext hok rfl)).mpr
    (Or.inr ⟨?_, ?_⟩)⟩
  · decide +kernel
  · decide +kernel
  · exact ⟨hstore (by decide +kernel), hstore (by decide +kernel), trivial⟩

/-- A database that rejects the deletion of the first day. -/
def rejectsFirst (day : Bytes) : Bool :=
  day = ascii "2025-09-14"

/-- **A dropped deletion.** The deletion of the first of three days is rejected; the trim
returns `ESP_OK`, and two days are left instead of one. -/
theorem dropped_deletion :
    ServesDays (mDays rejectsFirst) PlainDays.store (.of (ascii "https://db"))
        (.of (ascii "/m")) namedDay (threeDaysClient rejectsFirst).app.login_url
        (threeDaysClient rejectsFirst).app.auth_url ∧
      DaysReceived (mDays rejectsFirst) (threeDaysClient rejectsFirst) (.of (ascii "/m")) ∧
      (trimDays (mDays rejectsFirst) (threeDaysClient rejectsFirst) (.of (ascii "/m")) 1).1
        = some ESP_OK ∧
      ¬ DaysTrimmed 1 threeDays.store (trimDays (mDays rejectsFirst)
        (threeDaysClient rejectsFirst) (.of (ascii "/m")) 1).2.app.world.store := by
  have htrim : trimDays (mDays rejectsFirst) (threeDaysClient rejectsFirst)
      (.of (ascii "/m")) 1 = deleteDays (mDays rejectsFirst) (.of (ascii "/m"))
        [ascii "2025-09-14", ascii "2025-09-15"]
        ((threeDaysClient rejectsFirst).afterListing (mDays rejectsFirst)
          (.of (ascii "/m"))) := by
    rw [trimDays_of_names [ascii "2025-09-14", ascii "2025-09-15", ascii "2025-09-16"]]
    · rfl
    all_goals decide +kernel
  refine ⟨servesDays_dayServer (.of (ascii "https://db")) (.of (ascii "/m")) rejectsFirst
    (by decide) (by decide) _ _,
    fun _ => by decide +kernel, ?_, fun h => ?_⟩
  · rw [htrim]
    decide +kernel
  · have hleft : (deleteDays (mDays rejectsFirst) (.of (ascii "/m"))
        [ascii "2025-09-14", ascii "2025-09-15"]
        ((threeDaysClient rejectsFirst).afterListing (mDays rejectsFirst)
          (.of (ascii "/m")))).2.app.world.store.size = 2 := by decide +kernel
    have hfew := h.few
    rw [htrim, hleft] at hfew
    exact absurd hfew (by decide)

end PppAmb
