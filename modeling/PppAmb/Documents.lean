import PppAmb.Backend
import PppAmb.JsonUnique
import PppAmb.WrittenValues

/-!
# Documents, Sent and Read

The overloads of `RTDB::putData`, `postData` and `patchData` for a `Json::Value` write it with
`FastWriter` and send the text; `getData` reads what the server answers into a `Json::Value`.
This module says what comes back of a value that was put.

What is assumed of the database is collected in `ServesNode` and `Keeps`: a `PUT` is applied or
not, a 200 means that it was applied, a `GET` is answered with the compact text of the document,
and the document means what the text that was put means.

## Main results

* `nulFree_write`: the text that is written is sent in full.
* `getData_reads`: what `getData` returns, and that it leaves the database alone.
* `getData_after_putData`: what is read after a value was put.
-/

namespace PppAmb

/-! ### The text is sent in full -/

theorem NulFree.of_isRawString {s : Bytes} (h : isRawString s = true) : NulFree s := by
  induction s using isRawString.induct with
  | case1 => exact fun b hb => absurd hb (by simp)
  | case2 c =>
      rw [isRawString] at h
      rintro b hb rfl
      rw [← List.mem_singleton.mp hb] at h
      exact absurd h (by decide)
  | case3 e r ih =>
      simp only [isRawString, if_true, Bool.and_eq_true] at h
      have hback : NulFree [ch '\\', e] := by
        rintro b hb rfl
        rcases List.mem_pair.mp hb with heq | heq
        · exact absurd heq (by decide)
        · rw [← heq] at h
          exact absurd h.1 (by decide)
      exact hback.append (ih h.2)
  | case4 c e r hc ih =>
      simp only [isRawString, if_neg hc, Bool.and_eq_true] at h
      have hfirst : NulFree [c] := by
        rintro b hb rfl
        rw [← List.mem_singleton.mp hb] at h
        exact absurd h.1 (by decide)
      exact hfirst.append (ih h.2)

/-- Items without a NUL, in brackets. -/
theorem nulFree_bracketed {opening close : UInt8} (hopening : opening ≠ 0) (hclose : close ≠ 0)
    {ts : List Bytes} (h : ∀ t ∈ ts, NulFree t) : NulFree (bracketed opening close ts) := by
  have htail : ∀ {ts : List Bytes}, (∀ t ∈ ts, NulFree t) → NulFree (itemsTail close ts) := by
    intro ts hts
    induction ts with
    | nil => exact fun b hb => List.mem_singleton.mp hb ▸ hclose
    | cons t ts ih =>
        obtain ⟨ht, hts⟩ := List.forall_mem_cons.mp hts
        have hcomma : NulFree [ch ','] := by decide
        exact hcomma.append (ht.append (ih hts))
  have hfirst : NulFree [opening] := fun b hb => List.mem_singleton.mp hb ▸ hopening
  cases ts with
  | nil => exact hfirst.append fun b hb => List.mem_singleton.mp hb ▸ hclose
  | cons t ts =>
      obtain ⟨ht, hts⟩ := List.forall_mem_cons.mp h
      exact hfirst.append (ht.append (htail hts))

mutual

/-- The compact text of a value has no NUL. -/
theorem Json.nulFree_print (v : Json) : NulFree v.print :=
  match v with
  | .null => by decide
  | .boolean true => by decide
  | .boolean false => by decide
  | .number x => by
      rintro b hb rfl
      exact absurd (numberByte_of_mem_print x 0 hb) (by decide)
  | .string s => by
      have hquote : NulFree [ch '"'] := by decide
      exact hquote.append ((NulFree.of_isRawString s.valid).append hquote)
  | .array elements => nulFree_bracketed (by decide) (by decide) (Json.nulFree_elements elements)
  | .object members => by
      refine nulFree_bracketed (by decide) (by decide) fun t ht => ?_
      obtain ⟨m, hm, rfl⟩ := List.mem_map.mp ht
      obtain ⟨hname, hvalue⟩ := Json.nulFree_members members m hm
      have hquote : NulFree [ch '"'] := by decide
      have hcolon : NulFree [ch '"', ch ':'] := by decide
      exact hquote.append (hname.append (hcolon.append hvalue))

theorem Json.nulFree_elements (vs : List Json) : ∀ t ∈ Json.printElements vs, NulFree t :=
  match vs with
  | [] => fun t ht => absurd ht (by simp [Json.printElements])
  | v :: vs => List.forall_mem_cons.mpr ⟨v.nulFree_print, Json.nulFree_elements vs⟩

theorem Json.nulFree_members (ms : List (StringText × Json)) :
    ∀ m ∈ Json.printMembers ms, NulFree m.1 ∧ NulFree m.2 :=
  match ms with
  | [] => fun m hm => absurd hm (by simp [Json.printMembers])
  | (name, v) :: ms => List.forall_mem_cons.mpr
      ⟨⟨NulFree.of_isRawString name.valid, v.nulFree_print⟩, Json.nulFree_members ms⟩

end

/-- What is written has no NUL, so `c_str()` passes on all of it. -/
theorem nulFree_write {printReal : Bytes → Bytes} (hreals : PrintsReals printReal) {v : Value}
    (h : v.WellTyped) : NulFree (write printReal v) := by
  obtain ⟨j, hj⟩ := exists_writtenAs hreals h
  have hfeed : NulFree (ascii "\n") := by decide
  rw [write, ← hj.print]
  exact j.nulFree_print.append hfeed

/-! ### The overloads for a value -/

section Overloads

variable {σ : Type} (W : World σ)

/-- What the overloads of `putData`, `postData` and `patchData` for a `Json::Value` do. -/
def sendValue (method : Method) (d : Rtdb σ) (path : CStr) (data : Value) :
    Option EspErr × Rtdb σ :=
  sendData W method d path (.of (write W.printReal data))

/-- `RTDB::putData` of a `Json::Value`. -/
def putValue : Rtdb σ → CStr → Value → Option EspErr × Rtdb σ :=
  sendValue W .put

/-- `RTDB::postData` of a `Json::Value`. -/
def postValue : Rtdb σ → CStr → Value → Option EspErr × Rtdb σ :=
  sendValue W .post

/-- `RTDB::patchData` of a `Json::Value`. -/
def patchValue : Rtdb σ → CStr → Value → Option EspErr × Rtdb σ :=
  sendValue W .patch

/-- The text that is sent. -/
theorem bytes_of_write (hreals : PrintsReals W.printReal) {data : Value} (h : data.WellTyped) :
    (CStr.of (write W.printReal data)).bytes = write W.printReal data :=
  cString_eq_self (nulFree_write hreals h)

end Overloads

/-! ### The ways in which a read returns -/

section Paths

variable {σ : Type} {W : World σ} {path : CStr}

/-- One request of `getData`. -/
def Rtdb.getOnce (W : World σ) (d : Rtdb σ) (url : Bytes) : HttpRet × Rtdb σ :=
  (d.setHeader (ascii "content-type") (ascii "application/json")).performRequest W url .get []

/-- The ways in which `getData` returns: with the first response or the second one, with null, or
with the program stopped while it signs in again. -/
inductive GetPath (W : World σ) (d : Rtdb σ) (url : Bytes) : Option Value → Rtdb σ → Prop
  | first {ret : HttpRet} {d₁ : Rtdb σ} (hfirst : d.getOnce W url = (ret, d₁))
      (h200 : ret.is200 = true) : GetPath W d url d₁.parseResponse.1 d₁.parseResponse.2
  | stopped {ret : HttpRet} {d₁ : Rtdb σ} (hfirst : d.getOnce W url = (ret, d₁))
      (hrenew : d₁.renew (fun app => loginUserAccount W app app.user_account) = none) :
      GetPath W d url none d₁
  | second {ret ret' : HttpRet} {d₁ d₂ d₃ : Rtdb σ} (hfirst : d.getOnce W url = (ret, d₁))
      (hrenew : d₁.renew (fun app => loginUserAccount W app app.user_account) = some d₂)
      (hsecond : d₂.getOnce W url = (ret', d₃)) (h200 : ret'.is200 = true) :
      GetPath W d url d₃.parseResponse.1 d₃.parseResponse.2
  | failed {ret ret' : HttpRet} {d₁ d₂ d₃ : Rtdb σ} (hfirst : d.getOnce W url = (ret, d₁))
      (hrenew : d₁.renew (fun app => loginUserAccount W app app.user_account) = some d₂)
      (hsecond : d₂.getOnce W url = (ret', d₃)) :
      GetPath W d url (some .nullValue) d₃.clearHTTPBuffer

theorem getData_path {d d' : Rtdb σ} {r : Option Value} (hret : getData W d path = (r, d')) :
    GetPath W d ((dataTarget d.base_database_url path).url d.app.auth_token) r d' := by
  rw [getData] at hret
  set url := (dataTarget d.base_database_url path).url d.app.auth_token
  rcases hfirst : d.getOnce W url with ⟨ret, d₁⟩
  rw [Rtdb.getOnce] at hfirst
  simp only [hfirst] at hret
  split at hret
  · rename_i h200
    obtain ⟨rfl, rfl⟩ := Prod.mk.inj hret
    exact .first hfirst h200
  · split at hret
    · rename_i hrenew
      obtain ⟨rfl, rfl⟩ := Prod.mk.inj hret
      exact .stopped hfirst hrenew
    · rename_i d₂ hrenew
      rcases hsecond : d₂.getOnce W url with ⟨ret', d₃⟩
      rw [Rtdb.getOnce] at hsecond
      simp only [hsecond] at hret
      split at hret
      · rename_i h200
        obtain ⟨rfl, rfl⟩ := Prod.mk.inj hret
        exact .second hfirst hrenew hsecond h200
      · obtain ⟨rfl, rfl⟩ := Prod.mk.inj hret
        exact .failed hfirst hrenew hsecond

end Paths

/-! ### What is assumed of the database -/

section Contract

variable {σ : Type}

/-- **What the database does with one node.** `doc` is the document it holds there, `takes` the
document it takes a text for; a text that it refuses changes nothing. A `PUT` is applied or not,
and a 200 says that it was applied. A `GET` with a token leaves the node as it is, and with status
200 it brings the compact text of the document. -/
structure ServesNode (W : World σ) (doc : σ → Json) (base path : CStr)
    (takes : Bytes → Option Json) (login_url auth_url : Bytes) : Prop
    extends KeepsDb W doc login_url auth_url where
  put : ∀ w c query, c.method = .put → Names c.url base.bytes path.bytes query →
      (doc (W.perform w c).2 = doc w ∨
          doc (W.perform w c).2 = (takes c.post_field).getD (doc w)) ∧
        ((W.perform w c).1.err = ESP_OK → (W.perform w c).1.status_code = 200 →
          doc (W.perform w c).2 = (takes c.post_field).getD (doc w))
  get : ∀ w c token, c.method = .get → Names c.url base.bytes path.bytes (ascii "auth=" ++ token) →
      doc (W.perform w c).2 = doc w ∧
        ((W.perform w c).1.err = ESP_OK → (W.perform w c).1.status_code = 200 →
          (W.perform w c).1.body = (doc w).print)

/-- A document that the client can read: its strings and numbers can be decoded, it is not nested
too deeply, and its text fits into the receive array. -/
structure Json.Legible (j : Json) : Prop where
  decodes : j.decodes = true
  shallow : j.nodes ≤ 1000
  fits : j.print.length ≤ 16383

/-- The database takes the text for a document that means the same. -/
structure Keeps (takes : Bytes → Option Json) (text : Bytes) (j : Json) : Prop
    extends j.Legible where
  taken : takes text = some j
  same : ∀ j' : Json, j'.decodes = true → Spaced j'.tokens text → j.value = j'.value

variable {W : World σ} {doc : σ → Json} {base path : CStr} {takes : Bytes → Option Json}
  {login_url auth_url : Bytes}

theorem ServesNode.writes (h : ServesNode W doc base path takes login_url auth_url)
    (json_str : CStr) : Writes W doc .put base path json_str
      (fun j => (takes json_str.bytes).getD j) login_url auth_url where
  toSignsIn := h.toKeepsDb.signsIn
  write w c query hmethod hnames hbody := by
    rw [← hbody]
    exact h.put w c query hmethod hnames

/-- The document is read as its value. -/
theorem Json.Legible.parse {j : Json} (h : j.Legible) : parse (j.print.take 16383) = j.value := by
  rw [List.take_of_length_le h.fits, parse_eq_valueWithin h.decodes (spaced_print j),
    Json.valueWithin_eq h.decodes, stackLimit, if_pos h.shallow]

/-- A database that takes a text for what it says. -/
theorem Keeps.of_spaced {text : Bytes} {j : Json} (hj : j.Legible) (htext : Spaced j.tokens text)
    (htaken : takes text = some j) : Keeps takes text j where
  toLegible := hj
  taken := htaken
  same j' hdecodes hspaced := by
    have hboth : j.valueWithin stackLimit = j'.valueWithin stackLimit :=
      (parse_eq_valueWithin hj.decodes htext).symm.trans (parse_eq_valueWithin hdecodes hspaced)
    obtain ⟨x, hx⟩ := Option.isSome_iff_exists.mp ((Json.valueWithin_isSome hj.decodes).mpr le_rfl)
    rw [Json.valueWithin_eq hj.decodes, stackLimit, if_pos hj.shallow,
      Json.valueWithin_eq hdecodes] at hboth
    split at hboth
    · exact hboth
    · rw [Json.value, hx] at hboth
      exact absurd hboth (by simp)

/-- The document that was put is read as the value that was written. -/
theorem Keeps.value {data : Value} {j : Json} (hreals : PrintsReals W.printReal)
    (hdata : data.WellTyped) (hutf : data.TextsUtf8)
    (h : Keeps takes (write W.printReal data) j) : j.value = some (data.normal W.printReal) := by
  obtain ⟨j', hj'⟩ := exists_writtenAs hreals hdata
  rw [h.same j' hj'.decodes hj'.spaced, Json.value, hj'.nodes]
  exact hj'.value hutf _ le_rfl

/-! ### A read -/

/-- A request of an idle app leaves the document alone, and with status 200 its text is in the
receive array. -/
theorem ServesNode.getOnce (hW : W.ClosesFailed) (hlegal : W.Legal)
    (h : ServesNode W doc base path takes login_url auth_url) {d d' : Rtdb σ}
    (hidle : d.app.Idle) {auth_token : Bytes} {ret : HttpRet}
    (hget : d.getOnce W ((dataTarget base path).url auth_token) = (ret, d')) :
    doc d'.app.world = doc d.app.world ∧ StaysIdle d.app d'.app ∧
      (ret.is200 = true → cString d'.app.recv.local_response_buffer
        = (doc d.app.world).print.take 16383) := by
  obtain ⟨rfl, rfl⟩ := Prod.mk.inj hget
  have hgraded := graded_staysIdle hW
  have hready : (d.setHeader (ascii "content-type") (ascii "application/json")).app.Idle :=
    (hgraded.setHeader d.app _ _).idle hidle
  obtain ⟨token, hnames⟩ := names_dataTarget base path auth_token
  obtain ⟨hsame, hdone⟩ := request_attempts h.onlyAttempts (S := fun j => j = doc d.app.world)
    (R := fun _ a => a.status_code = 200 → a.body = (doc d.app.world).print)
    (fun w c hcarry hw => by
      obtain ⟨hkeep, hbody⟩ := h.get w c token hcarry.2.1 (hcarry.1 ▸ hnames)
      rw [hw] at hkeep hbody
      refine ⟨hkeep, fun hsucc hstatus => hbody ?_ hstatus⟩
      simp only [Attempt.succeeded, decide_eq_true_eq] at hsucc
      exact hsucc.1)
    (s := (d.setHeader (ascii "content-type") (ascii "application/json")).app)
    (h.settersHold _ _) rfl
  refine ⟨hsame, hgraded.dataRequest d ((dataTarget base path).url auth_token) .get [],
    fun h200 => ?_⟩
  have h2xx := HttpRet.is2xx_of_is200 h200
  obtain ⟨e, hlast, hcode, hbody⟩ := hdone h2xx
  obtain ⟨e', hlast', hbuffer⟩ := (performRequest_exact hlegal hready.size
    (hready.clean hW hlegal.inOrder _ .get [])).1 h2xx
  obtain rfl : e = e' := Option.some.inj (hlast.symm.trans hlast')
  simp only [HttpRet.is200, decide_eq_true_eq] at h200
  rw [← hbody (hcode ▸ h200.2)]
  exact hbuffer

/-- **A read.** `getData` leaves the document alone and returns null, or what the reader makes of
the first 16383 bytes of its text, unless the program is stopped. -/
theorem getData_reads (hW : W.ClosesFailed) (hlegal : W.Legal) {d d' : Rtdb σ}
    (hidle : d.app.Idle)
    (h : ServesNode W doc d.base_database_url path takes d.app.login_url d.app.auth_url)
    {r : Option Value} (hret : getData W d path = (r, d')) :
    doc d'.app.world = doc d.app.world ∧
      (r = none ∨ r = some .nullValue ∨ r = parse ((doc d.app.world).print.take 16383)) := by
  have hagain : ∀ {ret : HttpRet} {d₁ d₂ : Rtdb σ},
      d.getOnce W ((dataTarget d.base_database_url path).url d.app.auth_token) = (ret, d₁) →
      d₁.renew (fun app => loginUserAccount W app app.user_account) = some d₂ →
      doc d₂.app.world = doc d.app.world ∧ d₂.app.Idle := by
    rintro ret d₁ d₂ hfirst hrenew
    obtain ⟨hsame, hstay, -⟩ := h.getOnce hW hlegal hidle hfirst
    obtain ⟨⟨err, app⟩, hcall, rfl⟩ := Option.map_eq_some_iff.mp hrenew
    have hkeeps := h.toKeepsDb
    rw [← hstay.login_url, ← hstay.auth_url] at hkeeps
    exact ⟨(loginUserAccount_leavesDb hkeeps.signsIn hcall).same.trans hsame,
      ((graded_staysIdle hW).signIn hcall).idle (hstay.idle hidle)⟩
  cases getData_path hret with
  | first hfirst h200 =>
      obtain ⟨hsame, -, hbuffer⟩ := h.getOnce hW hlegal hidle hfirst
      exact ⟨hsame, .inr (.inr (congrArg parse (hbuffer h200)))⟩
  | stopped hfirst _ => exact ⟨(h.getOnce hW hlegal hidle hfirst).1, .inl rfl⟩
  | second hfirst hrenew hsecond h200 =>
      obtain ⟨hsame, hidle₂⟩ := hagain hfirst hrenew
      obtain ⟨hsame₂, -, hbuffer⟩ := h.getOnce hW hlegal hidle₂ hsecond
      rw [hsame] at hbuffer
      exact ⟨hsame₂.trans hsame, .inr (.inr (congrArg parse (hbuffer h200)))⟩
  | failed hfirst hrenew hsecond =>
      obtain ⟨hsame, hidle₂⟩ := hagain hfirst hrenew
      exact ⟨(h.getOnce hW hlegal hidle₂ hsecond).1.trans hsame, .inr (.inl rfl)⟩

/-! ### What is read after a value was put -/

/-- **A read after a write.** Whatever becomes of the attempts of a `putData` and of the `getData`
behind it, what is read is null or the value that was put; or the value that was there before, if
the write did not report success. -/
theorem getData_after_putData (hW : W.ClosesFailed) (hlegal : W.Legal)
    (hreals : PrintsReals W.printReal) {d d₁ d₂ : Rtdb σ} (hidle : d.app.Idle)
    (h : ServesNode W doc d.base_database_url path takes d.app.login_url d.app.auth_url)
    (hold : (doc d.app.world).Legible) {data : Value} (hdata : data.WellTyped)
    (hutf : data.TextsUtf8) {j : Json} (hkeeps : Keeps takes (write W.printReal data) j)
    {err : EspErr} (hput : putValue W d path data = (some err, d₁)) {r : Value}
    (hget : getData W d₁ path = (some r, d₂)) :
    r = .nullValue ∨ r = data.normal W.printReal ∨
      (err ≠ ESP_OK ∧ (doc d.app.world).value = some r) := by
  have hwrites := h.writes (CStr.of (write W.printReal data))
  rw [bytes_of_write W hreals hdata, hkeeps.taken] at hwrites
  have hidem : ∀ t : Json, (some j).getD ((some j).getD t) = (some j).getD t := fun _ => rfl
  obtain ⟨heither, hdone⟩ := hwrites.put hidem (h.sendsAsCalled _) (sendData_path hput)
  obtain ⟨hbase, hlogin, hauth⟩ := hwrites.toSignsIn.frame (sendData_path hput)
  have hidle₁ := ((graded_staysIdle hW).sendData hput).idle hidle
  rw [← hbase, ← hlogin, ← hauth] at h
  rcases (getData_reads hW hlegal hidle₁ h hget).2 with hstop | hnull | hread
  · exact absurd hstop (by simp)
  · exact .inl (Option.some.inj hnull)
  · by_cases hnew : doc d₁.app.world = j
    · rw [hnew, hkeeps.parse, hkeeps.value hreals hdata hutf, Option.some.injEq] at hread
      exact .inr (.inl hread)
    · refine .inr (.inr ⟨fun hok => hnew (hdone (congrArg some hok)), ?_⟩)
      rw [heither.resolve_right hnew, hold.parse] at hread
      exact hread.symm

end Contract

/-! ### A database that meets the assumptions -/

/-- A database that answers every attempt, with a single node. -/
def nodeServer (base path : Bytes) (takes : Bytes → Option Json) : World Json where
  init w _ := (true, w)
  setUrl w _ := (true, w)
  setMethod w _ := (true, w)
  setPostField w _ := (true, w)
  perform w c :=
    match c.method with
    | .get =>
        if pathIn base c.url = some path ∧ ascii "auth=" <+: queryOf c.url then
          (.fresh ESP_OK 200 w.print, w)
        else (.fresh ESP_OK 404 [], w)
    | .put =>
        if pathIn base c.url = some path then (.fresh ESP_OK 200 [], (takes c.post_field).getD w)
        else (.fresh ESP_OK 404 [], w)
    | _ => (.fresh ESP_OK 200 tokensBody, w)
  time _ := 0
  printReal := printHalf

variable {base path : Bytes}

theorem nodeServer_answer (takes : Bytes → Option Json) (w : Json) (c : Client) :
    ∃ status_code body, NulFree body ∧
      ((nodeServer base path takes).perform w c).1 = .fresh ESP_OK status_code body := by
  have hnil : NulFree [] := by decide
  simp only [nodeServer]
  split
  · split
    · exact ⟨_, _, w.nulFree_print, rfl⟩
    · exact ⟨_, _, hnil, rfl⟩
  · split <;> exact ⟨_, _, hnil, rfl⟩
  · exact ⟨_, _, by decide +kernel, rfl⟩

theorem nodeServer_legal (takes : Bytes → Option Json) : (nodeServer base path takes).Legal := by
  intro w c
  obtain ⟨status_code, body, hstring, hanswer⟩ := nodeServer_answer takes w c
  rw [hanswer, Attempt.body_fresh]
  exact ⟨Attempt.legal_fresh _ _ _ _, hstring⟩

theorem nodeServer_closesFailed (takes : Bytes → Option Json) :
    (nodeServer base path takes).ClosesFailed := by
  refine ⟨fun _ _ => rfl, fun w c _ => ?_⟩
  obtain ⟨status_code, body, -, hanswer⟩ := nodeServer_answer takes w c
  rw [hanswer]
  rfl

theorem nodeServer_serves (takes : Bytes → Option Json) (base path : CStr)
    (hpath : PathText path.bytes) (hmark : ch '?' ∉ base.bytes ++ path.bytes)
    (login_url auth_url : Bytes) :
    ServesNode (nodeServer base.bytes path.bytes takes) id base path takes login_url auth_url where
  init _ _ := rfl
  setUrl _ _ := ⟨rfl, rfl⟩
  setMethod _ _ := ⟨rfl, rfl⟩
  setPostField _ _ := ⟨rfl, rfl⟩
  signIn w c hmethod _ := by simp [nodeServer, hmethod]
  put w c query hmethod hnames := by
    simp [nodeServer, hmethod, pathIn_of_names hpath hnames]
  get w c token hmethod hnames := by
    have hplain : pathIn base.bytes c.url = some path.bytes ∧ ascii "auth=" <+: queryOf c.url :=
      ⟨pathIn_of_names hpath hnames, by
        rw [queryOf_of_names hmark hnames]
        exact List.prefix_append _ _⟩
    simp only [nodeServer, hmethod, if_pos hplain]
    exact ⟨trivial, fun _ _ => Attempt.body_fresh _ _ _⟩

/-- The document `[7,true]`. -/
def sevenTrue : Json :=
  .array [.number ⟨false, ⟨7, by decide⟩, [], none, none⟩, .boolean true]

/-- A database at `https://db/a` that takes every text for `[7,true]`. -/
def sevenServer : World Json :=
  nodeServer (ascii "https://db") (ascii "/a") fun _ => some sevenTrue

/-- A client of it, while it holds null. -/
def nodeClient : Rtdb Json :=
  ⟨.of (ascii "https://db"), App.new sevenServer (ascii "key") (zeroed HTTP_RECV_BUFFER_SIZE) .null,
    []⟩

/-- The value that is put; it is read as `sevenReturned`. -/
def sevenPut : Value :=
  .arrayValue [.uintValue 7, .booleanValue true]

def sevenReturned : Value :=
  .arrayValue [.intValue 7, .booleanValue true]

theorem getData_after_putData_seven : ∃ r d₂,
    getData sevenServer (putValue sevenServer nodeClient (.of (ascii "/a")) sevenPut).2
        (.of (ascii "/a")) = (some r, d₂) ∧
      (r = .nullValue ∨ r = sevenReturned) := by
  set W := sevenServer
  have hsent : (putValue W nodeClient (.of (ascii "/a")) sevenPut).1 = some ESP_OK := by
    decide +kernel
  have hreturns : (getData W (putValue W nodeClient (.of (ascii "/a")) sevenPut).2
      (.of (ascii "/a"))).1.isSome = true := by
    decide +kernel
  obtain ⟨r, hr⟩ := Option.isSome_iff_exists.mp hreturns
  have hidle : nodeClient.app.Idle :=
    ⟨⟨⟨_, rfl, rfl⟩, length_zeroed _⟩, fun c hc => by
      obtain rfl := Option.some.inj hc
      rfl⟩
  have htyped : sevenPut.WellTyped := ⟨by simp [Value.WellTyped], trivial, trivial⟩
  have hutf : sevenPut.TextsUtf8 := ⟨trivial, trivial, trivial⟩
  have hkeeps : Keeps (fun _ => some sevenTrue) (write W.printReal sevenPut) sevenTrue :=
    .of_spaced ⟨by decide, by decide, by decide⟩
      (spaced_append_blank (spaced_print sevenTrue) isJsonBlank_feed) rfl
  have hserves : ServesNode W id nodeClient.base_database_url (.of (ascii "/a"))
      (fun _ => some sevenTrue) nodeClient.app.login_url nodeClient.app.auth_url :=
    nodeServer_serves _ (.of (ascii "https://db")) (.of (ascii "/a")) (by decide) (by decide) _ _
  refine ⟨r, _, Prod.ext hr rfl, ?_⟩
  rcases getData_after_putData (nodeServer_closesFailed _) (nodeServer_legal _) printsReals_half
    hidle hserves ⟨rfl, by decide, by decide⟩ htyped hutf hkeeps
    (Prod.ext hsent rfl) (Prod.ext hr rfl) with hnull | hnew | ⟨hfail, -⟩
  · exact .inl hnull
  · exact .inr hnew
  · exact absurd rfl hfail

end PppAmb
