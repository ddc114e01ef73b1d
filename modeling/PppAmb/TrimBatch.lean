import PppAmb.CNumber
import PppAmb.CutReader
import PppAmb.RestRequest
import PppAmb.SensorTask

/-!
# Trimming the Oldest Records

`trimOldestBatch` lists the first records, reads their keys out of whatever part of the
listing has arrived, and sets these keys to null. The verdict of the JSON reader is not
looked at.

What is assumed of the database is collected in `Firebase`. Everything else about an
attempt is left open: its events, its error code, its status, and whether a `PATCH` that
was applied is also acknowledged.

## Main results

* `parse_cut_listing`: a listing that is cut anywhere gives the keys of its first records.
* `request_attempts`: what holds of every attempt holds of a whole request.
* `trimOldestBatch_path`: the ways in which a trim returns.
* `trimOldestBatch_removes`: what is returned tells what has been removed.
* `Trimmed.exists_trim`: so a trim is what the retention takes it for.
-/

namespace PppAmb

/-! ### Keys and listings -/

/-- The text has the given shape, in which `0` stands for any digit. -/
def hasShape : Bytes → Bytes → Bool
  | [], [] => true
  | p :: ps, c :: cs => (if p = ch '0' then isDigit c else c = p) && hasShape ps cs
  | _, _ => false

/-- `YY-MM-DD_HH-MM-SS`. -/
def isClave (key : Bytes) : Bool :=
  hasShape (ascii "00-00-00_00-00-00") key

theorem isPlain_of_isDigit {c : UInt8} (h : isDigit c = true) : isPlain c = true := by
  have hlo : ch '0' ≤ c ∧ c ≤ ch '9' := by simpa [isDigit] using h
  obtain ⟨hlo, hhi⟩ := hlo
  rw [UInt8.le_iff_toNat_le] at hlo hhi
  have h0 : (ch '0').toNat = 48 := rfl
  have h9 : (ch '9').toNat = 57 := rfl
  have hquote : c ≠ ch '"' := by
    rintro rfl
    exact absurd hlo (by decide)
  have hslash : c ≠ ch '\\' := by
    rintro rfl
    exact absurd hhi (by decide)
  have hspace : 32 ≤ c := by
    rw [UInt8.le_iff_toNat_le]
    have h32 : (32 : UInt8).toNat = 32 := rfl
    omega
  simp [isPlain, hquote, hslash, hspace]

/-- A text of some shape has its length, and holds digits and bytes of the shape only. -/
theorem mem_of_hasShape {shape key : Bytes} (h : hasShape shape key = true) :
    key.length = shape.length ∧ ∀ c ∈ key, isDigit c = true ∨ c ∈ shape := by
  fun_induction hasShape shape key with
  | case1 => simp
  | case2 p ps c cs ih =>
      rw [Bool.and_eq_true] at h
      obtain ⟨hlen, hall⟩ := ih h.2
      refine ⟨by simp [hlen], List.forall_mem_cons.mpr ⟨?_, fun d hd => ?_⟩⟩
      · by_cases hdigit : p = ch '0'
        · exact Or.inl (by simpa [hdigit] using h.1)
        · have hc : c = p := by simpa [hdigit] using h.1
          exact Or.inr (hc ▸ List.mem_cons_self)
      · rcases hall d hd with hdigit | hmem
        · exact Or.inl hdigit
        · exact Or.inr (List.mem_cons_of_mem _ hmem)
  | case3 => exact absurd h (by simp)

theorem plain_of_isClave {key : Bytes} (h : isClave key = true) : ∀ c ∈ key, isPlain c = true := by
  intro c hc
  rcases (mem_of_hasShape h).2 c hc with hdigit | hmem
  · exact isPlain_of_isDigit hdigit
  · have hall : (ascii "00-00-00_00-00-00").all isPlain = true := by decide
    exact List.all_eq_true.mp hall c hmem

theorem isDigit_digit (n : ℕ) : isDigit (digit n) = true := by
  have hmod : n % 10 < 10 := Nat.mod_lt n (by omega)
  have hall : ∀ d : Fin 10, isDigit (digit d.val) = true := by decide
  have hdigit : digit n = digit (n % 10) := by
    simp only [digit, Nat.mod_mod]
  rw [hdigit]
  exact hall ⟨n % 10, hmod⟩

theorem hasShape_twoDigits (shape rest : Bytes) (n : ℕ) :
    hasShape (ch '0' :: ch '0' :: shape) (twoDigits n ++ rest) = hasShape shape rest := by
  simp [hasShape, twoDigits, isDigit_digit]

theorem hasShape_separator {p : UInt8} (hp : p ≠ ch '0') (shape rest : Bytes) :
    hasShape (p :: shape) (p :: rest) = hasShape shape rest := by
  simp [hasShape, hp]

/-- The keys `sensor_task` writes have this form, whatever the time is. -/
theorem isClave_clave (tm : Tm) : isClave tm.clave = true := by
  have hclave : tm.clave = twoDigits (tm.year % 100).toNat ++ ch '-' :: (twoDigits tm.mon
      ++ ch '-' :: (twoDigits tm.mday ++ ch '_' :: (twoDigits tm.hour
      ++ ch '-' :: (twoDigits tm.min ++ ch '-' :: (twoDigits tm.sec ++ []))))) := rfl
  have hshape : ascii "00-00-00_00-00-00" = ch '0' :: ch '0' :: ch '-' :: ch '0' :: ch '0' :: ch '-'
      :: ch '0' :: ch '0' :: ch '_' :: ch '0' :: ch '0' :: ch '-' :: ch '0' :: ch '0' :: ch '-'
      :: ch '0' :: ch '0' :: [] := rfl
  have hdash : ch '-' ≠ ch '0' := by decide
  have hunder : ch '_' ≠ ch '0' := by decide
  rw [hclave, isClave, hshape]
  simp only [hasShape_twoDigits, hasShape_separator hdash, hasShape_separator hunder]
  rfl

/-- The children of a node in key order, as the database prints them. -/
def listing (records : List (Bytes × Json)) : Bytes :=
  objectText (records.map fun e => (e.1, e.2.print))

/-- What the database answers when it lists the given records; a node without children may
be printed as null. -/
def Lists (body : Bytes) (records : List (Bytes × Json)) : Prop :=
  body = listing records ∨ records = [] ∧ body = ascii "null"

/-- **A cut listing.** The reader gives an object with the keys of the first records, up
to some point, or nothing that is an object. -/
theorem parse_cut_listing {records : List (Bytes × Json)} {body : Bytes}
    (hbody : Lists body records) (hkeys : ∀ e ∈ records, isClave e.1 = true)
    (hinc : Increasing records) (n : ℕ) {v : Value}
    (h : parse (body.take (n + 1)) = some v) :
    v.isObject = false ∨ ∃ j, v.getMemberNames = some ((records.take j).map Prod.fst) := by
  rcases hbody with rfl | ⟨rfl, rfl⟩
  · have hmembers : ∀ m ∈ records.map fun e => (e.1, e.2.print),
        isRawString m.1 = true ∧ Reads (readValue 999) m.2 := by
      intro m hm
      obtain ⟨e, he, rfl⟩ := List.mem_map.mp hm
      exact ⟨isRawString_of_plain (plain_of_isClave (hkeys e he)), reads_print 999 e.2⟩
    have hplain : ∀ m ∈ records.map fun e => (e.1, e.2.print), ∀ c ∈ m.1, isPlain c = true := by
      intro m hm
      obtain ⟨e, he, rfl⟩ := List.mem_map.mp hm
      exact plain_of_isClave (hkeys e he)
    have hread := readObject_cut hmembers .nullValue [] n
    rw [List.append_nil] at hread
    obtain ⟨⟨ok, w, r⟩, hres, rfl⟩ := Option.map_eq_some_iff.mp h
    obtain ⟨⟨out, rfl, hout⟩, -⟩ := hread ok w r hres
    obtain ⟨j, hj⟩ := hout.names hplain (List.pairwise_map.mpr hinc) (by simp)
    refine Or.inr ⟨j, ?_⟩
    rw [Value.getMemberNames, hj, List.map_take, List.map_map, List.map_take]
    rfl
  · have hnull : parse ((ascii "null").take (n + 1)) = some .nullValue := by
      rcases n with _ | _ | _ | n
      · rfl
      · rfl
      · rfl
      · rw [List.take_of_length_le (by simp [ascii])]
        rfl
    rw [hnull] at h
    rw [← Option.some.inj h]
    exact Or.inl rfl

/-! ### What is assumed of the outside -/

section Requests

variable {σ δ : Type} {W : World σ} {db : σ → δ}

/-- Only attempts touch the database. -/
structure OnlyAttempts (W : World σ) (db : σ → δ) : Prop where
  init : ∀ w url, db (W.init w url).2 = db w
  setUrl : ∀ w url, db (W.setUrl w url).2 = db w
  setMethod : ∀ w method, db (W.setMethod w method).2 = db w
  setPostField : ∀ w data, db (W.setPostField w data).2 = db w

variable {url post_field : Bytes} {method : Method}

theorem OnlyAttempts.applyBody (h : OnlyAttempts W db) (w : σ) (c : Client) :
    db (applyBody W w c method post_field).2 = db w := by
  rw [PppAmb.applyBody]
  split <;> exact h.setPostField w _

theorem OnlyAttempts.setUp (h : OnlyAttempts W db) {w w' : σ} {client c : Option Client}
    (hset : setUp W w client url method post_field = (c, w')) : db w' = db w := by
  have hrest : ∀ w c, db (PppAmb.applyBody W (applyMethod W w c method).2
      (applyMethod W w c method).1 method post_field).2 = db w := by
    intro w c
    rw [h.applyBody]
    exact h.setMethod w method
  have hw : w' = (PppAmb.setUp W w client url method post_field).2 := by rw [hset]
  rw [hw]
  cases client with
  | none =>
      rcases hinit : W.init w url with ⟨ok, w₁⟩
      have hdb : db w₁ = db w := by
        rw [← h.init w url, hinit]
      cases ok <;> simp [PppAmb.setUp, useClient, hinit, hrest, hdb]
  | some c =>
      have hdb := h.setUrl w url
      simp only [PppAmb.setUp, useClient, hrest, hdb]

theorem OnlyAttempts.afterFailure (h : OnlyAttempts W db) (s : App σ) :
    db (s.afterFailure W method).world = db s.world := by
  simp only [App.afterFailure, App.readBuffer]
  split
  · rfl
  · rw [prepareRetry]
    split
    · rfl
    · exact h.setPostField s.world []

/-- The setters of the client succeed, and only attempts touch the database. -/
structure Serves (W : World σ) (db : σ → δ) : Prop where
  init : ∀ w url, db (W.init w url).2 = db w
  setUrl : ∀ w url, (W.setUrl w url).1 = true ∧ db (W.setUrl w url).2 = db w
  setMethod : ∀ w method, (W.setMethod w method).1 = true ∧ db (W.setMethod w method).2 = db w
  setPostField : ∀ w data, (W.setPostField w data).1 = true ∧ db (W.setPostField w data).2 = db w

theorem Serves.onlyAttempts (h : Serves W db) : OnlyAttempts W db where
  init := h.init
  setUrl w url := (h.setUrl w url).2
  setMethod w method := (h.setMethod w method).2
  setPostField w data := (h.setPostField w data).2

theorem Serves.settersHold (h : Serves W db) (w : σ) (client : Option Client) :
    SettersHold W w client url method post_field := by
  cases client with
  | none => exact fun _ => ⟨Or.inl (h.setMethod _ _).1, Or.inl (h.setPostField _ _).1⟩
  | some c => exact ⟨Or.inl (h.setUrl _ _).1, Or.inl (h.setMethod _ _).1,
      Or.inl (h.setPostField _ _).1⟩

/-- **What holds of every attempt holds of a request.** Let the setters hold at its first
attempt. If every attempt that carries the request keeps `S` of the database, and every
successful one establishes `R`, then the request keeps `S`, and if it succeeds its last attempt
has established `R`. -/
theorem request_attempts (h : OnlyAttempts W db) {S : δ → Prop} {R : δ → Attempt → Prop}
    (hattempt : ∀ w c, c.Carries url method (wantedBody method post_field) → S (db w) →
      S (db (W.perform w c).2) ∧
        ((W.perform w c).1.succeeded = true → R (db (W.perform w c).2) (W.perform w c).1))
    {s : App σ} (hhold : SettersHold W s.world s.client url method post_field)
    (hs : S (db s.world)) :
    S (db (performRequest W s url method post_field).2.world) ∧
      ((performRequest W s url method post_field).1.is2xx = true →
        ∃ e, (performRequest W s url method post_field).2.sent.getLast? = some e ∧
          (performRequest W s url method post_field).1.status_code = e.attempt.status_code ∧
          R (db (performRequest W s url method post_field).2.world) e.attempt) := by
  refine requestLoop_rule
    (I := fun _ err status t => (HttpRet.mk err status).is2xx = false ∧ S (db t.world) ∧
      SettersHold W t.world t.client url method post_field)
    (Q := fun ret t => S (db t.world) ∧ (ret.is2xx = true → ∃ e, t.sent.getLast? = some e ∧
      ret.status_code = e.attempt.status_code ∧ R (db t.world) e.attempt))
    ?_ ?_ ?_ ?_ 5 ESP_FAIL (-1) s ⟨rfl, hs, hhold⟩
  · rintro err status t ⟨hno, ht, -⟩
    exact ⟨ht, fun hyes => absurd hyes (by simp [hno])⟩
  · rintro n err status t w ⟨hno, ht, -⟩ hset
    refine ⟨?_, fun hyes => absurd hyes (by simp [hno])⟩
    rwa [← h.setUp hset] at ht
  · rintro n err status t c w ⟨-, ht, hhold⟩ hset hsucc
    have hcarry := (carries_setUp_iff hset).mpr hhold
    rw [← h.setUp hset] at ht
    obtain ⟨hkeep, hdone⟩ := hattempt w c hcarry ht
    refine ⟨hkeep, fun _ => ⟨⟨c, t.auth_token, (W.perform w c).1⟩, ?_, rfl, hdone hsucc⟩⟩
    simp [App.perform, App.close]
  · rintro n err status t c w ⟨-, ht, hhold⟩ hset hsucc
    have hcarry := (carries_setUp_iff hset).mpr hhold
    rw [← h.setUp hset] at ht
    refine ⟨hsucc, ?_, settersHold_afterFailure
      (c := { c with connOpen := (W.perform w c).1.keepsOpen }) rfl hcarry⟩
    rw [h.afterFailure]
    exact (hattempt w c hcarry ht).1

end Requests

/-! ### The trim -/

section Trim

variable {σ : Type} {W : World σ} {db : σ → Store Bytes Json} {base root_path : CStr}
  {batch_size : Int}

/-- **What the database does.** A `GET` of the first `batch_size` children of the root in key
order leaves it as it is, and with status 200 it brings them. A `PATCH` of the root with nulls is
applied or not; if it is applied exactly the named children are removed, and if it succeeds it
was applied. -/
structure Firebase (W : World σ) (db : σ → Store Bytes Json) (base root_path : CStr)
    (batch_size : Int) : Prop extends Serves W db where
  list : ∀ w c query, c.method = .get → Names c.url base.bytes root_path.bytes query →
    parameter query (ascii "orderBy") = some (ascii "%22%24key%22") →
    parameter query (ascii "limitToFirst") = some (ascii (toString batch_size)) →
      db (W.perform w c).2 = db w ∧
        ((W.perform w c).1.err = ESP_OK → (W.perform w c).1.status_code = 200 →
          Lists (W.perform w c).1.body ((db w).entries.take batch_size.toNat))
  patch : ∀ w c query keys, keys ≠ [] → (∀ key ∈ keys, isClave key = true) →
    c.method = .patch → Names c.url base.bytes root_path.bytes query →
    c.post_field = nullsText keys →
      (db (W.perform w c).2 = db w ∨ db (W.perform w c).2 = (db w).erase keys) ∧
        ((W.perform w c).1.succeeded = true → db (W.perform w c).2 = (db w).erase keys)

/-- The result of a trim tells what has been removed. -/
structure Trimmed (batch_size r : Int) (before after : Store Bytes Json) : Prop where
  returns : 0 < r ∨ r = 0 ∨ r = -1 ∨ r = -2
  removed : 0 < r → r ≤ batch_size ∧ r ≤ before.size ∧ after = before.dropFirst r.toNat
  unchanged : r = 0 ∨ r = -1 → after = before
  uncertain : r = -2 → after = before ∨
    ∃ m : ℕ, m ≤ batch_size ∧ m ≤ before.size ∧ after = before.dropFirst m

theorem Trimmed.same {before after : Store Bytes Json} {r : Int} (hr : r = 0 ∨ r = -1)
    (h : after = before) : Trimmed batch_size r before after :=
  ⟨by omega, fun hpos => by omega, fun _ => h, fun _ => Or.inl h⟩

/-- What the retention of `sensor_task` takes for granted: a trim removes some of the oldest
records, and exactly as many as it reports if it reports any. -/
theorem Trimmed.exists_trim {before after : Store Bytes Json} {r : Int}
    (h : Trimmed batch_size r before after) :
    ∃ trim : Trim, trim.deleted = r ∧ after = before.dropFirst trim.removed ∧
      (0 < trim.deleted → (trim.removed : Int) = trim.deleted ∧ trim.removed ≤ before.size) := by
  rcases h.returns with hpos | hzero | hlist | hpatch
  · obtain ⟨-, hle, hafter⟩ := h.removed hpos
    exact ⟨⟨r, r.toNat⟩, rfl, hafter, fun _ => ⟨by dsimp only; omega, by dsimp only; omega⟩⟩
  · exact ⟨⟨r, 0⟩, rfl, h.unchanged (Or.inl hzero), fun hpos => by dsimp only at hpos; omega⟩
  · exact ⟨⟨r, 0⟩, rfl, h.unchanged (Or.inr hlist), fun hpos => by dsimp only at hpos; omega⟩
  · rcases h.uncertain hpatch with hsame | ⟨m, -, -, hgone⟩
    · exact ⟨⟨r, 0⟩, rfl, hsame, fun hpos => by dsimp only at hpos; omega⟩
    · exact ⟨⟨r, m⟩, rfl, hgone, fun hpos => by dsimp only at hpos; omega⟩

/-- The listing. -/
theorem Firebase.listed (h : Firebase W db base root_path batch_size) {d d' : Rtdb σ}
    {auth_token : Bytes} {ret : HttpRet}
    (hget : d.performRequest W ((listTarget base root_path batch_size).url auth_token) .get []
      = (ret, d')) :
    db d'.app.world = db d.app.world ∧ (ret.is200 = true →
      ∃ e, d'.app.sent.getLast? = some e ∧
        Lists e.attempt.body ((db d.app.world).entries.take batch_size.toNat)) := by
  obtain ⟨rfl, rfl⟩ := Prod.mk.inj hget
  obtain ⟨query, hnames, horder, hlimit⟩ := names_listTarget base root_path batch_size auth_token
  obtain ⟨hsame, hdone⟩ := request_attempts h.onlyAttempts (S := fun t => t = db d.app.world)
    (R := fun _ a => a.status_code = 200 →
      Lists a.body ((db d.app.world).entries.take batch_size.toNat))
    (fun w c hcarry hw => by
      obtain ⟨hkeep, hbody⟩ := h.list w c query hcarry.2.1 (hcarry.1 ▸ hnames) horder hlimit
      rw [hw] at hkeep hbody
      refine ⟨hkeep, fun hsucc hstatus => hbody ?_ hstatus⟩
      simp only [Attempt.succeeded, decide_eq_true_eq] at hsucc
      exact hsucc.1) (h.settersHold _ _) rfl
  refine ⟨hsame, fun h200 => ?_⟩
  obtain ⟨e, hlast, hcode, hlists⟩ := hdone (HttpRet.is2xx_of_is200 h200)
  simp only [HttpRet.is200, decide_eq_true_eq] at h200
  exact ⟨e, hlast, hlists (hcode ▸ h200.2)⟩

/-- The deletion. -/
theorem Firebase.patched (h : Firebase W db base root_path batch_size) {d d' : Rtdb σ}
    {auth_token : Bytes} {keys : List Bytes} {ret : HttpRet} (hne : keys ≠ [])
    (hkeys : ∀ key ∈ keys, isClave key = true)
    (hpatch : d.performRequest W ((patchTarget base root_path).url auth_token) .patch
      (patch_body keys) = (ret, d')) :
    (db d'.app.world = db d.app.world ∨ db d'.app.world = (db d.app.world).erase keys) ∧
      (ret.is2xx = true → db d'.app.world = (db d.app.world).erase keys) := by
  obtain ⟨rfl, rfl⟩ := Prod.mk.inj hpatch
  obtain ⟨query, hnames⟩ := names_patchTarget base root_path auth_token
  obtain ⟨hkeep, hdone⟩ := request_attempts h.onlyAttempts
    (S := fun t => t = db d.app.world ∨ t = (db d.app.world).erase keys)
    (R := fun t _ => t = (db d.app.world).erase keys)
    (fun w c hcarry hw => by
      -- an attempt may come after one that was applied without being acknowledged
      have herase : (db w).erase keys = (db d.app.world).erase keys := by
        rcases hw with hw | hw <;> simp [hw]
      obtain ⟨heither, hsucc⟩ := h.patch w c query keys hne hkeys hcarry.2.1 (hcarry.1 ▸ hnames)
        (hcarry.2.2.trans (patch_body_eq keys))
      rw [herase] at heither hsucc
      refine ⟨?_, hsucc⟩
      rcases heither with hold | hnew
      · rwa [hold]
      · exact Or.inr hnew) (h.settersHold _ _) (Or.inl rfl)
  refine ⟨hkeep, fun h2xx => ?_⟩
  obtain ⟨e, -, -, herased⟩ := hdone h2xx
  exact herased

@[simp] theorem Rtdb.world_setHeader (d : Rtdb σ) (header value : Bytes) :
    (d.setHeader header value).app.world = d.app.world := rfl

/-- The request for the listing. -/
def Rtdb.list (W : World σ) (d : Rtdb σ) (root_path : CStr) (batch_size : Int) : HttpRet × Rtdb σ :=
  (d.setHeader (ascii "content-type") (ascii "application/json")).performRequest W
    ((listTarget d.base_database_url root_path batch_size).url d.app.auth_token) .get []

/-- The request that sets the keys to null. -/
def Rtdb.patchKeys (W : World σ) (d : Rtdb σ) (root_path : CStr) (keys : List Bytes) :
    HttpRet × Rtdb σ :=
  (d.setHeader (ascii "content-type") (ascii "application/json")).performRequest W
    ((patchTarget d.base_database_url root_path).url d.app.auth_token) .patch (patch_body keys)

/-- The listing has been received: after a 200 the array holds the first 16383 bytes of
the body. -/
def ListingReceived (W : World σ) (d : Rtdb σ) (root_path : CStr) (batch_size : Int) : Prop :=
  (d.list W root_path batch_size).1.is200 = true →
    ∃ e, (d.list W root_path batch_size).2.app.sent.getLast? = some e ∧
      cString (d.list W root_path batch_size).2.app.recv.local_response_buffer
        = e.attempt.body.take 16383

/-- The ways in which a trim of a positive number of records returns. -/
inductive TrimPath (W : World σ) (d : Rtdb σ) (root_path : CStr) (batch_size : Int) :
    Int → Rtdb σ → Prop
  | notListed {get_ret : HttpRet} {d₁ : Rtdb σ}
      (hget : d.list W root_path batch_size = (get_ret, d₁)) (hfailed : get_ret.is200 = false) :
      TrimPath W d root_path batch_size (-1) d₁.clearHTTPBuffer
  | noKeys {get_ret : HttpRet} {d₁ : Rtdb σ}
      (hget : d.list W root_path batch_size = (get_ret, d₁)) :
      TrimPath W d root_path batch_size 0 d₁.parseResponse.2
  | keys {get_ret patch_ret : HttpRet} {d₁ d₂ : Rtdb σ} {obj : Value} {keys : List Bytes}
      (hget : d.list W root_path batch_size = (get_ret, d₁)) (hlisted : get_ret.is200 = true)
      (hobj : d₁.parseResponse.1 = some obj) (hkind : obj.isObject = true)
      (hnames : obj.getMemberNames = some keys) (hne : keys ≠ [])
      (hpatch : d₁.parseResponse.2.patchKeys W root_path keys = (patch_ret, d₂)) :
      TrimPath W d root_path batch_size (if patch_ret.is2xx then keys.length else -2)
        d₂.clearHTTPBuffer

theorem trimOldestBatch_path {d d' : Rtdb σ} {r : Int} (hbatch : 0 < batch_size)
    (hret : trimOldestBatch W d root_path batch_size = (some r, d')) :
    TrimPath W d root_path batch_size r d' := by
  rcases hget : d.list W root_path batch_size with ⟨get_ret, d₁⟩
  rw [Rtdb.list] at hget
  rw [trimOldestBatch, if_neg (by omega)] at hret
  simp only [hget] at hret
  rw [← Rtdb.list] at hget
  cases h200 : get_ret.is200 with
  | false =>
      simp only [h200, Bool.false_eq_true, not_false_eq_true, if_true, Prod.mk.injEq,
        Option.some.injEq] at hret
      obtain ⟨rfl, rfl⟩ := hret
      exact .notListed hget h200
  | true =>
      simp only [h200, not_true_eq_false, if_false] at hret
      rcases hparse : d₁.parseResponse with ⟨_ | obj, d₂⟩
      · simp [hparse] at hret
      · have hobj : d₁.parseResponse.1 = some obj := by rw [hparse]
        have hd₂ : d₂ = d₁.parseResponse.2 := by rw [hparse]
        simp only [hparse] at hret
        cases hkind : obj.isObject with
        | false =>
            simp only [hkind, Bool.false_eq_true, not_false_eq_true, if_true, Prod.mk.injEq,
              Option.some.injEq] at hret
            obtain ⟨rfl, rfl⟩ := hret
            exact hd₂ ▸ .noKeys hget
        | true =>
            simp only [hkind, not_true_eq_false, if_false] at hret
            cases hnames : obj.getMemberNames with
            | none => simp [hnames] at hret
            | some keys =>
                simp only [hnames] at hret
                by_cases hempty : keys.isEmpty = true
                · simp only [hempty, if_true, Prod.mk.injEq, Option.some.injEq] at hret
                  obtain ⟨rfl, rfl⟩ := hret
                  exact hd₂ ▸ .noKeys hget
                · rcases hpatch : d₂.patchKeys W root_path keys with ⟨patch_ret, d₃⟩
                  have hpath := TrimPath.keys hget h200 hobj hkind hnames (by simpa using hempty)
                    (hd₂ ▸ hpatch)
                  rw [Rtdb.patchKeys] at hpatch
                  simp only [hempty, hpatch] at hret
                  cases h2xx : patch_ret.is2xx <;>
                    simp only [h2xx, Bool.false_eq_true, not_false_eq_true, not_true_eq_false,
                      if_true, if_false, Prod.mk.injEq, Option.some.injEq] at hret hpath <;>
                    obtain ⟨rfl, rfl⟩ := hret <;> exact hpath

/-- The deletion of the first records. -/
theorem Firebase.trimmed {d d' : Rtdb σ}
    (h : Firebase W db d.base_database_url root_path batch_size) {keys : List Bytes}
    {ret : HttpRet} {n : ℕ} (hne : keys ≠ [])
    (hfirst : keys = ((db d.app.world).entries.take n).map Prod.fst) (hn : n ≤ batch_size)
    (hkeys : ∀ e ∈ (db d.app.world).entries, isClave e.1 = true)
    (hpatch : d.patchKeys W root_path keys = (ret, d')) :
    Trimmed batch_size (if ret.is2xx then keys.length else -2) (db d.app.world)
      (db d'.app.world) := by
  have hclaves : ∀ key ∈ keys, isClave key = true := by
    intro key hkey
    rw [hfirst] at hkey
    obtain ⟨e, he, rfl⟩ := List.mem_map.mp hkey
    exact hkeys e (List.mem_of_mem_take he)
  obtain ⟨hkeep, hdone⟩ := h.patched hne hclaves hpatch
  have hlen : keys.length = min n (db d.app.world).size := by
    rw [hfirst, List.length_map, List.length_take, Store.size]
  have hpos := List.length_pos_iff.mpr hne
  have herase : (db d.app.world).erase keys = (db d.app.world).dropFirst keys.length := by
    have htake : (db d.app.world).entries.take n = (db d.app.world).entries.take keys.length := by
      rw [List.take_eq_take_iff, hlen, Store.size]
      omega
    rw [← erase_firstKeys, ← htake, ← hfirst]
  rw [Rtdb.world_setHeader, herase] at hkeep hdone
  cases h2xx : ret.is2xx with
  | true =>
      rw [if_pos rfl, hdone h2xx]
      exact ⟨by omega, fun _ => ⟨by omega, by omega, rfl⟩, by omega, by omega⟩
  | false =>
      rw [if_neg (by simp)]
      refine ⟨by omega, by omega, by omega, fun _ => ?_⟩
      rcases hkeep with hsame | hgone
      · exact Or.inl hsame
      · exact Or.inr ⟨keys.length, by omega, by omega, hgone⟩

/-- **The trim.** Whatever becomes of its attempts and wherever the listing is cut: what
`trimOldestBatch` returns tells what has been removed. -/
theorem trimOldestBatch_removes (d : Rtdb σ)
    (h : Firebase W db d.base_database_url root_path batch_size) (hbatch : 0 < batch_size)
    (hkeys : ∀ e ∈ (db d.app.world).entries, isClave e.1 = true)
    (hreceived : ListingReceived W d root_path batch_size) {r : Int} {d' : Rtdb σ}
    (hret : trimOldestBatch W d root_path batch_size = (some r, d')) :
    Trimmed batch_size r (db d.app.world) (db d'.app.world) := by
  cases trimOldestBatch_path hbatch hret with
  | notListed hget _ => exact .same (Or.inr rfl) (h.listed hget).1
  | noKeys hget => exact .same (Or.inl rfl) (h.listed hget).1
  | @keys get_ret patch_ret d₁ d₂ obj keys hget hlisted hobj hkind hnames hne hpatch =>
      obtain ⟨hsame, hbody⟩ := h.listed hget
      obtain ⟨e, hlast, hlists⟩ := hbody hlisted
      rw [ListingReceived, hget] at hreceived
      obtain ⟨e', hlast', hbuffer⟩ := hreceived hlisted
      obtain rfl : e = e' := Option.some.inj (hlast.symm.trans hlast')
      have hparse : parse (e.attempt.body.take 16383) = some obj := by
        rw [← hbuffer]
        exact hobj
      have hcut := parse_cut_listing hlists (fun e he => hkeys e (List.mem_of_mem_take he))
        ((db d.app.world).increasing.sublist (List.take_sublist _ _)) 16382 hparse
      obtain ⟨j, hfirst⟩ := hcut.resolve_left (by simp [hkind])
      rw [hnames, Option.some.injEq, List.take_take] at hfirst
      have hbase : d₁.base_database_url = d.base_database_url := by
        obtain ⟨-, rfl⟩ := Prod.mk.inj hget
        rfl
      have hdb : db d₁.parseResponse.2.app.world = db d.app.world := hsame
      rw [← hbase] at h
      rw [Rtdb.world_setHeader, ← hdb] at hfirst
      rw [← hdb] at hkeys ⊢
      have htrim := Firebase.trimmed (d := d₁.parseResponse.2) h hne hfirst (by omega) hkeys hpatch
      exact htrim

end Trim

/-! ### A trim of two records -/

/-- A key of this form holds digits and its separators only. -/
theorem not_mem_of_isClave {key : Bytes} {c : UInt8} (h : isClave key = true)
    (hdigit : isDigit c = false) (hshape : c ∉ ascii "00-00-00_00-00-00") : c ∉ key := by
  intro hmem
  rcases (mem_of_hasShape h).2 _ hmem with hd | hs
  · exact absurd hd (by simp [hdigit])
  · exact hshape hs

theorem comma_not_mem_of_isClave {key : Bytes} (h : isClave key = true) : ch ',' ∉ key :=
  not_mem_of_isClave h (by decide) (by decide)

theorem nulFree_of_isClave {key : Bytes} (h : isClave key = true) : NulFree key :=
  fun _ hb hzero => not_mem_of_isClave h (by decide) (by decide) (hzero ▸ hb)

/-- Nothing in it ends the path of a URL. -/
theorem pathText_of_isClave {key : Bytes} (h : isClave key = true) : PathText key :=
  fun _ hb => ⟨fun hmark => not_mem_of_isClave h (by decide) (by decide) (hmark ▸ hb),
    fun hhash => not_mem_of_isClave h (by decide) (by decide) (hhash ▸ hb)⟩

/-- What a database with the given records answers to a `GET` with this query: the first ones in
key order, as many as it asks for. -/
def answerList (query : Bytes) (entries : List (Bytes × Json)) : Attempt :=
  if parameter query (ascii "orderBy") = some (ascii "%22%24key%22") then
    match parameter query (ascii "limitToFirst") with
    | some limit => .fresh ESP_OK 200 (listing (entries.take (atoi limit).toNat))
    | none => .fresh ESP_OK 200 (listing entries)
  else .fresh ESP_OK 400 []

/-- A database with a single node, which answers every attempt and applies every `PATCH`. -/
def trimServer (base root_path : Bytes) : World (Store Bytes Json) where
  init w _ := (true, w)
  setUrl w _ := (true, w)
  setMethod w _ := (true, w)
  setPostField w _ := (true, w)
  perform w c :=
    if pathIn base c.url = some root_path then
      match c.method with
      | .get => (answerList (queryOf c.url) w.entries, w)
      | .patch => (.fresh ESP_OK 204 [], w.erase (nullNames c.post_field))
      | .post | .put | .delete => (.fresh ESP_OK 400 [], w)
    else (.fresh ESP_OK 404 [], w)
  time _ := 0
  printReal := id

theorem firebase_trimServer (base root_path : CStr) {batch_size : Int}
    (hpath : PathText root_path.bytes) (hmark : ch '?' ∉ base.bytes ++ root_path.bytes)
    (hlimit : atoi (ascii (toString batch_size)) = batch_size) :
    Firebase (trimServer base.bytes root_path.bytes) id base root_path batch_size := by
  refine ⟨⟨fun _ _ => rfl, fun _ _ => ⟨rfl, rfl⟩, fun _ _ => ⟨rfl, rfl⟩, fun _ _ => ⟨rfl, rfl⟩⟩,
    ?_, ?_⟩
  · intro w c query hmethod hnames horder hfirst
    have hanswer : answerList (queryOf c.url) w.entries
        = .fresh ESP_OK 200 (listing (w.entries.take batch_size.toNat)) := by
      rw [queryOf_of_names hmark hnames, answerList, if_pos horder, hfirst]
      simp only [hlimit]
    simp only [trimServer, pathIn_of_names hpath hnames, if_true, hmethod, hanswer, id_eq]
    exact ⟨trivial, fun _ _ => Or.inl (Attempt.body_fresh _ _ _)⟩
  · intro w c query keys hne hkeys hmethod hnames hbody
    have hnulls : nullNames c.post_field = keys := by
      rw [hbody, nullNames_nullsText hne fun key hkey => comma_not_mem_of_isClave (hkeys key hkey)]
    simp only [trimServer, pathIn_of_names hpath hnames, if_true, hmethod, hnulls, id_eq]
    exact ⟨Or.inr trivial, fun _ => trivial⟩

/-- Two records. -/
def twoRecords : Store Bytes Json :=
  ⟨[(ascii "25-09-16_05-20-00", .object [(⟨ascii "co2", rfl⟩, .number ⟨false, 4, [0, 0], none, none⟩)]),
    (ascii "25-09-16_05-25-00", .object [(⟨ascii "hora", rfl⟩, .string ⟨ascii "05:25:00", rfl⟩)])],
    List.pairwise_pair.mpr (by decide)⟩

/-- The database at `https://db/m`. -/
def mServer : World (Store Bytes Json) :=
  trimServer (ascii "https://db") (ascii "/m")

/-- A client of it, while it holds the two records. -/
def twoRecordsClient : Rtdb (Store Bytes Json) :=
  ⟨.of (ascii "https://db"), App.new mServer (ascii "key") (zeroed HTTP_RECV_BUFFER_SIZE)
    twoRecords, []⟩

theorem trimOldestBatch_removes_one :
    (trimOldestBatch mServer twoRecordsClient (.of (ascii "/m")) 1).1 = some 1 ∧
      Trimmed 1 1 twoRecords
        (trimOldestBatch mServer twoRecordsClient (.of (ascii "/m")) 1).2.app.world := by
  have hone : (trimOldestBatch mServer twoRecordsClient (.of (ascii "/m")) 1).1 = some 1 := by
    decide +kernel
  have hserves : Firebase mServer id twoRecordsClient.base_database_url (.of (ascii "/m")) 1 :=
    firebase_trimServer (.of (ascii "https://db")) (.of (ascii "/m")) (by decide) (by decide)
      (by decide)
  refine ⟨hone, trimOldestBatch_removes twoRecordsClient hserves (by decide)
    (by decide +kernel) (fun _ => ⟨_, rfl, ?_⟩) (Prod.ext hone rfl)⟩
  decide +kernel

end PppAmb
