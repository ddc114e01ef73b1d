import PppAmb.JsonMeaning
import PppAmb.RestRequest

/-!
# The Bodies of the Requests

`getRefreshToken`, `getAuthToken` and `trimOldestBatch` put the bodies of their requests
together by hand: the e-mail, the password, the refresh token and the keys stand between the
quotes as they are. This module says when such a body means what it was made for.

## Main results

* `request_bodies_mean_iff`: a body means the intended object exactly when every text in it
  stands for itself, without a quote and without a backslash.
* `another_key_deleted`: a key with a backslash in it deletes another record.
-/

namespace PppAmb

/-! ### The intended objects -/

/-- What `getRefreshToken` posts. -/
def accountMembers (account : UserAccount) : List (Bytes × Data) :=
  [(ascii "email", .string account.user_email), (ascii "password", .string account.user_password),
    (ascii "returnSecureToken", .boolean true)]

/-- What `getAuthToken` posts. -/
def tokenMembers (refresh_token : Bytes) : List (Bytes × Data) :=
  [(ascii "grant_type", .string (ascii "refresh_token")),
    (ascii "refresh_token", .string refresh_token)]

/-- What `trimOldestBatch` sends: every listed key is mapped to null. -/
def patchMembers (keys : List Bytes) : List (Bytes × Data) :=
  keys.map fun key => (key, .null)

/-! ### Objects member by member -/

/-- The tokens of an object behind its first member. -/
def restTokens (ms : List (StringText × Json)) : List Bytes :=
  tokensTail (ch '}') ((Json.tokensMembers ms).map memberTokens)

/-- The first member of an object that is not empty. -/
theorem MeansObject.first {s : Bytes} {members : List (Bytes × Data)} (hne : members ≠ [])
    (h : MeansObject (ch '{' :: s) members) :
    ∃ (name : StringText) (v : Json) (ms : List (StringText × Json)) (ds : List (Bytes × Data)),
      Json.wellFormedMembers ((name, v) :: ms) = true ∧
      Json.dataMembers ((name, v) :: ms) = some ds ∧ ds.Perm members ∧
      Spaced (memberTokens (name.raw, v.tokens) ++ restTokens ms) s := by
  obtain ⟨v, ds, hv, hspaced, hdata, hperm⟩ := h
  obtain ⟨ms, rfl, hds⟩ := Json.data_eq_object hdata
  cases ms with
  | nil =>
      obtain rfl : [] = ds := Option.some.inj hds
      exact absurd hperm.nil_eq.symm hne
  | cons m ms =>
      obtain ⟨name, v⟩ := m
      exact ⟨name, v, ms, ds, hv, hds, hperm, Spaced.mark hspaced rfl⟩

/-- The member behind a comma and a blank. -/
theorem Spaced.next {ms : List (StringText × Json)} {s : Bytes}
    (h : Spaced (restTokens ms) (ch ',' :: ch ' ' :: s)) :
    ∃ (name : StringText) (v : Json) (ms' : List (StringText × Json)), ms = (name, v) :: ms' ∧
      Spaced (memberTokens (name.raw, v.tokens) ++ restTokens ms') s := by
  obtain ⟨ts, tss, heq, hrest⟩ := h.comma (by decide)
  cases ms with
  | nil => exact absurd heq (by simp [Json.tokensMembers])
  | cons m ms =>
      obtain ⟨name, v⟩ := m
      obtain ⟨rfl, rfl⟩ := List.cons.inj heq
      exact ⟨name, v, ms, rfl, hrest.behind_blank rfl rfl⟩

/-- The name of a member is the string its text begins with. -/
theorem Spaced.member {name : StringText} {v : Json} {s t : Bytes} {ts : List Bytes}
    (hs : isStringBody s = true) (hname : isStringBody name.raw = true)
    (h : Spaced (memberTokens (name.raw, v.tokens) ++ ts)
      (ch '"' :: (s ++ ch '"' :: ch ':' :: t))) :
    name.raw = s ∧ Spaced (v.tokens ++ ts) t := by
  obtain ⟨heq, hrest⟩ := Spaced.quoted hs hname h
  exact ⟨heq, hrest.mark rfl⟩

/-- No rest of an object begins with a letter. -/
theorem Spaced.rest_ne {ms : List (StringText × Json)} {c : UInt8} {s : Bytes}
    (h : Spaced (restTokens ms) (c :: s)) (hc : isJsonSpace c = false) :
    c = ch ',' ∨ c = ch '}' := by
  cases ms with
  | nil =>
      obtain ⟨r, hr, -⟩ := Spaced.first (t := [ch '}']) h hc
      exact Or.inr (List.cons.inj hr).1
  | cons m ms =>
      obtain ⟨r, hr, -⟩ := Spaced.first (t := [ch ',']) h hc
      exact Or.inl (List.cons.inj hr).1

/-- A string that is followed by a comma, a blank and a name cannot end at the opening quote of
that name. -/
theorem Spaced.verbatim_before {ms : List (StringText × Json)} {s raw name t : Bytes} {c : UInt8}
    (hraw : isStringBody raw = true) (hdecode : decodeString raw = some s)
    (h : Spaced (PppAmb.quoted raw :: restTokens ms)
      (ch '"' :: (s ++ ch '"' :: ch ',' :: ch ' ' :: ch '"' :: (name ++ t))))
    (hname : name.head? = some c) (hc : isJsonSpace c = false) (hcomma : c ≠ ch ',')
    (hclose : c ≠ ch '}') :
    Verbatim s ∧ Spaced (restTokens ms) (ch ',' :: ch ' ' :: ch '"' :: (name ++ t)) := by
  refine h.verbatim hraw hdecode fun u r hu heq hr => ?_
  obtain ⟨rfl, rfl⟩ := eq_of_isStringBody (s := [ch ',', ch ' ']) rfl hu heq
  cases name with
  | nil => exact absurd hname (by simp)
  | cons d name =>
      obtain rfl : d = c := Option.some.inj hname
      exact (hr.rest_ne hc).elim hcomma hclose

/-- The member of an intended object with a given name. -/
theorem data_of_name {name : StringText} {v : Json} {ms : List (StringText × Json)}
    {ds members : List (Bytes × Data)} {s : Bytes} {d : Data}
    (hds : Json.dataMembers ((name, v) :: ms) = some ds) (hsub : ds ⊆ members)
    (hname : name.raw = s) (hs : decodeString s = some s)
    (hd : ∀ d', (s, d') ∈ members → d' = d) :
    v.data = some d ∧ ∃ ds', Json.dataMembers ms = some ds' ∧ ds' ⊆ members := by
  obtain ⟨s', d', ds', hs', hd', hrest, rfl⟩ := Json.dataMembers_cons_eq_some.mp hds
  rw [hname, hs] at hs'
  obtain rfl := Option.some.inj hs'
  obtain ⟨hmem, hsub'⟩ := List.cons_subset.mp hsub
  rw [← hd d' hmem]
  exact ⟨hd', ds', hrest, hsub'⟩

/-! ### The account -/

/-- The body of `getRefreshToken`, string by string. -/
theorem account_json_eq (account : UserAccount) : account_json account =
    ch '{' :: ch '"' :: (ascii "email" ++ ch '"' :: ch ':' :: ch '"' :: (account.user_email
      ++ ch '"' :: ch ',' :: ch ' ' :: ch '"' :: (ascii "password" ++ ch '"' :: ch ':' :: ch '"' ::
        (account.user_password ++ ch '"' :: ch ',' :: ch ' ' :: ch '"' ::
          (ascii "returnSecureToken" ++ ch '"' :: ch ':' :: ch ' ' ::
            (ascii "true" ++ [ch '}'])))))) := by
  simp [account_json, ascii, ch]

theorem verbatim_of_account_means {account : UserAccount}
    (h : MeansObject (account_json account) (accountMembers account)) :
    Verbatim account.user_email ∧ Verbatim account.user_password := by
  rw [account_json_eq] at h
  obtain ⟨name₁, v₁, ms₁, ds₁, hwf₁, hds₁, hperm, hmember₁⟩ := h.first (by simp [accountMembers])
  obtain ⟨hname₁, hv₁, hwf₂⟩ := Json.wellFormedMembers_cons.mp hwf₁
  obtain ⟨hraw₁, hvalue₁⟩ := Spaced.member (by rfl) hname₁ hmember₁
  obtain ⟨hdata₁, ds₂, hds₂, hsub⟩ := data_of_name hds₁ hperm.subset hraw₁ (by rfl)
    (d := .string account.user_email) (by simp [accountMembers, ascii])
  obtain ⟨raw₁, rfl, hdecode₁⟩ := Json.data_eq_string hdata₁
  obtain ⟨hemail, hrest⟩ := Spaced.verbatim_before (c := ch 'p') hv₁ hdecode₁ hvalue₁ rfl rfl
    (by decide) (by decide)
  obtain ⟨name₂, v₂, ms₂, rfl, hmember₂⟩ := hrest.next
  obtain ⟨hname₂, hv₂, -⟩ := Json.wellFormedMembers_cons.mp hwf₂
  obtain ⟨hraw₂, hvalue₂⟩ := Spaced.member (by rfl) hname₂ hmember₂
  obtain ⟨hdata₂, -⟩ := data_of_name hds₂ hsub hraw₂ (by rfl)
    (d := .string account.user_password) (by simp [accountMembers, ascii])
  obtain ⟨raw₂, rfl, hdecode₂⟩ := Json.data_eq_string hdata₂
  obtain ⟨hpassword, -⟩ := Spaced.verbatim_before (c := ch 'r') hv₂ hdecode₂ hvalue₂ rfl rfl
    (by decide) (by decide)
  exact ⟨hemail, hpassword⟩

theorem account_means {account : UserAccount} (hemail : Verbatim account.user_email)
    (hpassword : Verbatim account.user_password) :
    MeansObject (account_json account) (accountMembers account) := by
  have htokens : Spaced [[ch '{'], quoted (ascii "email"), [ch ':'], quoted account.user_email,
      [ch ','], quoted (ascii "password"), [ch ':'], quoted account.user_password,
      [ch ','], quoted (ascii "returnSecureToken"), [ch ':'], ascii "true", [ch '}']]
      (account_json account) := by
    have hend : Spaced [ascii "true", [ch '}']] (ascii "true" ++ [ch '}']) := spaced_flatten _
    have hflag := ((hend.blank (c := ch ' ') rfl).token [ch ':']).token
      (quoted (ascii "returnSecureToken"))
    have hsecond := ((((hflag.blank (c := ch ' ') rfl).token [ch ',']).token
      (quoted account.user_password)).token [ch ':']).token (quoted (ascii "password"))
    have hfirst := ((((hsecond.blank (c := ch ' ') rfl).token [ch ',']).token
      (quoted account.user_email)).token [ch ':']).token (quoted (ascii "email"))
    rw [account_json_eq]
    simpa [quoted] using hfirst.token [ch '{']
  have hflag : MembersMean [(plainName "returnSecureToken" rfl, .boolean true)]
      [(ascii "returnSecureToken", .boolean true)] :=
    membersMean_nil.cons (plainName "returnSecureToken" rfl) ⟨rfl, rfl⟩ rfl rfl
  have hsecond := hflag.string (plainName "password" rfl) ⟨rfl, rfl⟩ hpassword
  have hfirst := hsecond.string (plainName "email" rfl) ⟨rfl, rfl⟩ hemail
  exact hfirst.meansObject htokens

/-! ### The refresh token -/

/-- The body of `getAuthToken`, string by string. -/
theorem token_post_data_eq (refresh_token : Bytes) : token_post_data refresh_token =
    ch '{' :: ch '"' :: (ascii "grant_type" ++ ch '"' :: ch ':' :: ch ' ' :: ch '"' ::
      (ascii "refresh_token" ++ ch '"' :: ch ',' :: ch ' ' :: ch '"' :: (ascii "refresh_token"
        ++ ch '"' :: ch ':' :: ch '"' :: (refresh_token ++ ch '"' :: [ch '}'])))) := by
  simp [token_post_data, ascii, ch]

theorem verbatim_of_token_means {refresh_token : Bytes}
    (h : MeansObject (token_post_data refresh_token) (tokenMembers refresh_token)) :
    Verbatim refresh_token := by
  rw [token_post_data_eq] at h
  obtain ⟨name₁, v₁, ms₁, ds₁, hwf₁, hds₁, hperm, hmember₁⟩ := h.first (by simp [tokenMembers])
  obtain ⟨hname₁, hv₁, hwf₂⟩ := Json.wellFormedMembers_cons.mp hwf₁
  obtain ⟨hraw₁, hvalue₁⟩ := Spaced.member (by rfl) hname₁ hmember₁
  obtain ⟨hdata₁, ds₂, hds₂, hsub⟩ := data_of_name hds₁ hperm.subset hraw₁ (by rfl)
    (d := .string (ascii "refresh_token")) (by simp [tokenMembers, ascii])
  obtain ⟨raw₁, rfl, -⟩ := Json.data_eq_string hdata₁
  have hstring : Spaced (quoted raw₁.raw :: restTokens ms₁) _ :=
    Spaced.behind_blank hvalue₁ rfl rfl
  obtain ⟨-, hrest⟩ := Spaced.quoted (by rfl) hv₁ hstring
  obtain ⟨name₂, v₂, ms₂, rfl, hmember₂⟩ := hrest.next
  obtain ⟨hname₂, hv₂, -⟩ := Json.wellFormedMembers_cons.mp hwf₂
  obtain ⟨hraw₂, hvalue₂⟩ := Spaced.member (by rfl) hname₂ hmember₂
  obtain ⟨hdata₂, -⟩ := data_of_name hds₂ hsub hraw₂ (by rfl)
    (d := .string refresh_token) (by simp [tokenMembers, ascii])
  obtain ⟨raw₂, rfl, hdecode₂⟩ := Json.data_eq_string hdata₂
  -- no quote is left behind the token
  refine (Spaced.verbatim hv₂ hdecode₂ hvalue₂ fun u r _ heq _ => ?_).1
  have hquote : ch '"' ∈ [ch '}'] := by
    rw [heq]
    simp
  exact absurd hquote (by decide)

theorem token_means {refresh_token : Bytes} (h : Verbatim refresh_token) :
    MeansObject (token_post_data refresh_token) (tokenMembers refresh_token) := by
  have htokens : Spaced [[ch '{'], quoted (ascii "grant_type"), [ch ':'],
      quoted (ascii "refresh_token"), [ch ','], quoted (ascii "refresh_token"), [ch ':'],
      quoted refresh_token, [ch '}']] (token_post_data refresh_token) := by
    have hsecond := spaced_flatten [quoted (ascii "refresh_token"), [ch ':'],
      quoted refresh_token, [ch '}']]
    have hvalue := ((hsecond.blank (c := ch ' ') rfl).token [ch ',']).token
      (quoted (ascii "refresh_token"))
    have hfirst := ((hvalue.blank (c := ch ' ') rfl).token [ch ':']).token
      (quoted (ascii "grant_type"))
    rw [token_post_data_eq]
    simpa [quoted] using hfirst.token [ch '{']
  have hsecond := membersMean_nil.string (plainName "refresh_token" rfl) ⟨rfl, rfl⟩ h
  have hfirst := hsecond.string (plainName "grant_type" rfl) ⟨rfl, rfl⟩
    (s := ascii "refresh_token") ⟨rfl, rfl⟩
  exact hfirst.meansObject htokens

/-! ### The keys to delete -/

/-- Eight bytes go with every name, and one with the object. -/
theorem length_nullsText {names : List Bytes} (h : names ≠ []) :
    (nullsText names).length = (names.map List.length).sum + 8 * names.length + 1 := by
  have hmember : ∀ name, (memberText (name, ascii "null")).length + 1 = name.length + 8 := by
    simp [memberText, ascii]
  rw [nullsText, objectText, length_bracketed _ _ (by simpa using h), List.map_map, List.map_map]
  simp only [Function.comp_def, hmember, List.sum_map_add, List.map_const', List.sum_replicate_nat]
  omega

/-- The text of members that are all null. -/
theorem printMembers_of_null {ms : List (StringText × Json)} {ds : List (Bytes × Data)}
    (h : Json.dataMembers ms = some ds) (hnull : ∀ d ∈ ds, d.2 = .null) :
    Json.printMembers ms = (ms.map fun m => m.1.raw).map fun name => (name, ascii "null") := by
  induction ms generalizing ds with
  | nil => rfl
  | cons m ms ih =>
      obtain ⟨name, v⟩ := m
      obtain ⟨s, d, ds', -, hd, hds, rfl⟩ := Json.dataMembers_cons_eq_some.mp h
      obtain ⟨hfirst, hrest⟩ := List.forall_mem_cons.mp hnull
      obtain rfl : d = .null := hfirst
      obtain rfl := Json.data_eq_null hd
      rw [Json.printMembers, ih hds hrest]
      rfl

/-- Decoding makes no name longer. -/
theorem sum_length_names_le {ms : List (StringText × Json)} {ds : List (Bytes × Data)}
    (h : Json.dataMembers ms = some ds) :
    (ds.map fun d => d.1.length).sum ≤ (ms.map fun m => m.1.raw.length).sum := by
  induction ms generalizing ds with
  | nil =>
      obtain rfl : [] = ds := Option.some.inj h
      exact le_rfl
  | cons m ms ih =>
      obtain ⟨name, v⟩ := m
      obtain ⟨s, d, ds', hs, -, hds, rfl⟩ := Json.dataMembers_cons_eq_some.mp h
      have hrest := ih hds
      have hfirst : s.length ≤ name.raw.length := by
        rcases decodeString_length hs with ⟨-, rfl⟩ | hlt
        · exact le_rfl
        · exact hlt.le
      simp only [List.map_cons, List.sum_cons]
      omega

/-- Names that are not shortened on the whole stand for themselves. -/
theorem verbatim_of_sum_length_le {ms : List (StringText × Json)} {ds : List (Bytes × Data)}
    (hwf : Json.wellFormedMembers ms = true) (h : Json.dataMembers ms = some ds)
    (hle : (ms.map fun m => m.1.raw.length).sum ≤ (ds.map fun d => d.1.length).sum) :
    ∀ d ∈ ds, Verbatim d.1 := by
  induction ms generalizing ds with
  | nil =>
      obtain rfl : [] = ds := Option.some.inj h
      simp
  | cons m ms ih =>
      obtain ⟨name, v⟩ := m
      obtain ⟨s, d, ds', hs, -, hds, rfl⟩ := Json.dataMembers_cons_eq_some.mp h
      obtain ⟨hname, -, hwf⟩ := Json.wellFormedMembers_cons.mp hwf
      have hrest := sum_length_names_le hds
      simp only [List.map_cons, List.sum_cons] at hle
      obtain ⟨heq, hverbatim⟩ := verbatim_of_length_le hname hs (by omega)
      rw [heq] at hle
      exact List.forall_mem_cons.mpr ⟨hverbatim, ih hwf hds (by omega)⟩

theorem verbatim_of_patch_means {keys : List Bytes}
    (h : MeansObject (patch_body keys) (patchMembers keys)) : ∀ key ∈ keys, Verbatim key := by
  obtain ⟨v, ds, hwf, hspaced, hdata, hperm⟩ := h
  obtain ⟨ms, rfl, hds⟩ := Json.data_eq_object hdata
  have hnull : ∀ d ∈ ds, d.2 = .null := by
    intro d hd
    obtain ⟨key, -, rfl⟩ := List.mem_map.mp (hperm.subset hd)
    rfl
  have hlength : ms.length = keys.length := by
    rw [Json.length_dataMembers hds, hperm.length_eq, patchMembers, List.length_map]
  rcases eq_or_ne keys [] with rfl | hne
  · simp
  have hms : (ms.map fun m => m.1.raw) ≠ [] := by
    rw [← List.length_pos_iff, List.length_map, hlength]
    exact List.length_pos_iff.mpr hne
  -- the text has no room for an escape: its names are as long as the keys
  have hsum : (ds.map fun d => d.1.length).sum = (keys.map List.length).sum := by
    rw [(hperm.map fun d => d.1.length).sum_eq, patchMembers, List.map_map]
    rfl
  have htext := hspaced.length_print_le
  rw [Json.print, printMembers_of_null hds hnull, ← nullsText, patch_body_eq, length_nullsText hms,
    length_nullsText hne, List.map_map, List.length_map, hlength] at htext
  have hle : (ms.map fun m => m.1.raw.length).sum ≤ (ds.map fun d => d.1.length).sum := by
    rw [hsum]
    simpa [Function.comp_def] using htext
  intro key hkey
  have hmem : (key, Data.null) ∈ patchMembers keys := List.mem_map_of_mem hkey
  exact verbatim_of_sum_length_le hwf hds hle _ (hperm.symm.subset hmem)

theorem exists_patch_members {keys : List Bytes} (h : ∀ key ∈ keys, Verbatim key) :
    ∃ ms, MembersMean ms (patchMembers keys) ∧
      Json.printMembers ms = keys.map fun key => (key, ascii "null") := by
  induction keys with
  | nil => exact ⟨[], membersMean_nil, rfl⟩
  | cons key keys ih =>
      obtain ⟨hkey, hrest⟩ := List.forall_mem_cons.mp h
      obtain ⟨ms, hmean, hprint⟩ := ih hrest
      refine ⟨(hkey.string, .null) :: ms, hmean.cons hkey.string hkey rfl rfl, ?_⟩
      rw [Json.printMembers, hprint]
      rfl

theorem patch_means {keys : List Bytes} (h : ∀ key ∈ keys, Verbatim key) :
    MeansObject (patch_body keys) (patchMembers keys) := by
  obtain ⟨ms, hmean, hprint⟩ := exists_patch_members h
  have htext := spaced_print (.object ms)
  rw [Json.print, hprint, ← nullsText, ← patch_body_eq] at htext
  exact hmean.meansObject htext

/-! ### All bodies -/

/-- **Request bodies.** Whatever the account, the refresh token and the keys are, the three
bodies mean what they were made for exactly when the texts in them stand for themselves: they
are the texts of JSON strings, with no quote and no backslash. -/
theorem request_bodies_mean_iff (account : UserAccount) (refresh_token : Bytes)
    (keys : List Bytes) :
    (MeansObject (account_json account) (accountMembers account) ↔
      Verbatim account.user_email ∧ Verbatim account.user_password) ∧
    (MeansObject (token_post_data refresh_token) (tokenMembers refresh_token) ↔
      Verbatim refresh_token) ∧
    (MeansObject (patch_body keys) (patchMembers keys) ↔ ∀ key ∈ keys, Verbatim key) :=
  ⟨⟨verbatim_of_account_means, fun h => account_means h.1 h.2⟩,
    ⟨verbatim_of_token_means, token_means⟩, ⟨verbatim_of_patch_means, patch_means⟩⟩

/-- The body made for the key `a\u0062` does not delete it, but `ab`. -/
theorem another_key_deleted :
    ¬ MeansObject (patch_body [ascii "a\\u0062"]) (patchMembers [ascii "a\\u0062"]) ∧
      MeansObject (patch_body [ascii "a\\u0062"]) (patchMembers [ascii "ab"]) := by
  constructor
  · intro h
    have hverbatim := verbatim_of_patch_means h _ List.mem_cons_self
    exact absurd hverbatim.2 (by decide)
  · have htext := spaced_print (.object [(⟨ascii "a\\u0062", rfl⟩, .null)])
    exact ⟨_, _, rfl, htext, rfl, .refl _⟩

end PppAmb
