import PppAmb.Calendar
import PppAmb.JsonText
import PppAmb.Rtdb

/-!
# What a Request Says to the Database

The database is asked by `<base><path>.json?<query>`: the path names a node, the query holds
parameters, and the body of a `PATCH` is a JSON object whose null members are to be deleted.
Assumptions about the database are stated in these terms. This module says how a request is read,
and what the requests of the client say when they are read so.

## Main results

* `pathIn_of_names`, `queryOf_of_names`: what is read out of such a URL.
* `names_dataTarget` and the lemmas after it: what the URLs of the client name.
* `patch_body_eq`: what `trimOldestBatch` sends is an object of nulls.
-/

namespace PppAmb

/-! ### Reading a URL -/

/-- **The URL names a node**: the one at `path` below `base`, with a query behind it. -/
def Names (url base path query : Bytes) : Prop :=
  url = base ++ path ++ ascii ".json?" ++ query

/-- The value of a parameter in a query. -/
def parameter (query name : Bytes) : Option Bytes :=
  (query.splitOn (ch '&')).findSome? fun p => (name ++ ascii "=").isPrefixOf? p

/-- The path that a URL names below `base`: it ends at the first question mark or hash, and
`.json` stands behind it. -/
def pathIn (base url : Bytes) : Option Bytes :=
  (base.isPrefixOf? url).bind fun rest =>
    (ascii ".json").isSuffixOf? (rest.takeWhile fun b => b ≠ ch '?' ∧ b ≠ ch '#')

/-- What stands behind the first question mark of a URL. -/
def queryOf (url : Bytes) : Bytes :=
  (url.dropWhile fun b => b ≠ ch '?').drop 1

/-- Neither a question mark nor a hash, which end the path of a URL. -/
def PathText (path : Bytes) : Prop :=
  ∀ b ∈ path, b ≠ ch '?' ∧ b ≠ ch '#'

instance (path : Bytes) : Decidable (PathText path) :=
  List.decidableBAll (fun b => b ≠ ch '?' ∧ b ≠ ch '#') path

theorem isPrefixOf?_append (s t : Bytes) : s.isPrefixOf? (s ++ t) = some t :=
  List.isPrefixOf?_eq_some_iff_append_eq.mpr rfl

/-- What follows the end of the first parameter does not matter to its value. -/
theorem parameter_first {name value : Bytes} (hname : ch '&' ∉ name ++ ascii "=" ++ value)
    (rest : Bytes) :
    parameter (name ++ ascii "=" ++ value ++ ch '&' :: rest) name = some value := by
  rw [parameter, List.splitOn_append_cons_self_of_not_mem hname, List.findSome?_cons,
    isPrefixOf?_append]

/-- Another parameter in front does not matter either. -/
theorem parameter_next {name other : Bytes} (hother : ch '&' ∉ other)
    (hno : (name ++ ascii "=").isPrefixOf? other = none) (rest : Bytes) :
    parameter (other ++ ch '&' :: rest) name = parameter rest name := by
  rw [parameter, List.splitOn_append_cons_self_of_not_mem hother, List.findSome?_cons, hno]
  rfl

/-- The path ends at the first question mark. -/
theorem Names.eq_mark {url base path query : Bytes} (h : Names url base path query) :
    url = base ++ ((path ++ ascii ".json") ++ ch '?' :: query) := by
  have hmark : ascii ".json?" = ascii ".json" ++ [ch '?'] := rfl
  rw [h, hmark]
  simp only [List.append_assoc, List.cons_append, List.nil_append]

/-- A URL that names a child of a node names it below the URL of that node. -/
theorem Names.below {url base path name query : Bytes}
    (h : Names url base (path ++ ascii "/" ++ name) query) :
    Names url (base ++ path ++ ascii "/") name query := by
  rw [Names, h]
  simp only [List.append_assoc]

theorem pathIn_of_names {url base path query : Bytes} (hpath : PathText path)
    (h : Names url base path query) : pathIn base url = some path := by
  have hfile : ∀ b ∈ path ++ ascii ".json", b ≠ ch '?' ∧ b ≠ ch '#' := by
    intro b hb
    rcases List.mem_append.mp hb with hb | hb
    · exact hpath b hb
    · have hjson : (ascii ".json").all (fun b => b ≠ ch '?' ∧ b ≠ ch '#') = true := by decide
      exact of_decide_eq_true (List.all_eq_true.mp hjson b hb)
  have hend : ((path ++ ascii ".json") ++ ch '?' :: query).takeWhile
      (fun b => decide (b ≠ ch '?' ∧ b ≠ ch '#')) = path ++ ascii ".json" := by
    rw [takeWhile_append_cons (by decide), List.takeWhile_eq_self_iff]
    exact fun b hb => decide_eq_true (hfile b hb)
  rw [pathIn, h.eq_mark, isPrefixOf?_append, Option.bind_some, hend, List.isSuffixOf?,
    List.reverse_append, isPrefixOf?_append, Option.map_some, List.reverse_reverse]

theorem queryOf_of_names {url base path query : Bytes} (hbase : ch '?' ∉ base ++ path)
    (h : Names url base path query) : queryOf url = query := by
  have hurl : url = (base ++ path ++ ascii ".json") ++ ch '?' :: query := by
    rw [h.eq_mark]
    simp only [List.append_assoc]
  have hfront : ∀ b ∈ base ++ path ++ ascii ".json", decide (b ≠ ch '?') = true := by
    intro b hb
    rw [decide_eq_true_eq]
    rintro rfl
    rcases List.mem_append.mp hb with hb | hb
    · exact hbase hb
    · exact absurd hb (by decide)
  rw [queryOf, hurl, List.dropWhile_append_of_pos hfront, List.dropWhile_cons_of_neg (by simp)]
  rfl

/-! ### Nulls -/

/-- An object whose values are all null. -/
def nullsText (names : List Bytes) : Bytes :=
  objectText (names.map fun name => (name, ascii "null"))

theorem patch_body_eq (keys : List Bytes) : patch_body keys = nullsText keys := by
  have hmember : ∀ key : Bytes,
      ascii "\"" ++ key ++ ascii "\":null" = memberText (key, ascii "null") := by
    simp [memberText, ascii, ch]
  simp only [patch_body, hmember, nullsText, objectText, List.map_map]
  cases keys with
  | nil => rfl
  | cons key keys =>
      rw [List.map_cons, List.map_cons, bracketed, append_itemsTail]
      rfl

/-- The names of the members of an object whose value is null. -/
def nullNames (body : Bytes) : List Bytes :=
  ((body.drop 1).dropLast.splitOn (ch ',')).filterMap fun member =>
    ((ascii "\":null").isSuffixOf? member).map fun quoted => quoted.drop 1

/-- The names that were made null are read back. -/
theorem nullNames_nullsText {names : List Bytes} (hne : names ≠ [])
    (hcomma : ∀ name ∈ names, ch ',' ∉ name) : nullNames (nullsText names) = names := by
  have hbody : (nullsText names).drop 1
      = [ch ','].intercalate (names.map fun name => ascii "\"" ++ name ++ ascii "\":null")
        ++ [ch '}'] := by
    rw [← patch_body_eq]
    rfl
  have hmember : ∀ m ∈ names.map fun name => ascii "\"" ++ name ++ ascii "\":null", ch ',' ∉ m := by
    intro m hm hmem
    obtain ⟨name, hname, rfl⟩ := List.mem_map.mp hm
    rcases List.mem_append.mp hmem with hmem | hmem
    · rcases List.mem_append.mp hmem with hmem | hmem
      · exact absurd hmem (by decide)
      · exact hcomma name hname hmem
    · exact absurd hmem (by decide)
  rw [nullNames, hbody, List.dropLast_concat,
    List.splitOn_intercalate (ch ',') hmember (by simpa), List.filterMap_map]
  refine (List.filterMap_congr fun name _ => ?_).trans List.filterMap_some
  rw [Function.comp_apply, List.isSuffixOf?, List.reverse_append, isPrefixOf?_append,
    Option.map_some, List.reverse_reverse]
  rfl

/-! ### The URLs of the client -/

/-- A URL with some parameters in front of the token names its node, with these parameters and
the C string of the rest as its query. -/
theorem names_target {t : Target} {base path : CStr} {front : Bytes}
    (ht : t.before = base.bytes ++ path.bytes ++ ascii ".json?" ++ front) (hfront : NulFree front)
    (auth_token : Bytes) :
    Names (cString (t.url auth_token)) base.bytes path.bytes
      (front ++ cString (ascii "auth=" ++ auth_token ++ t.after)) := by
  have hbefore : NulFree t.before := by
    rw [ht]
    exact ((base.nulFree.append path.nulFree).append (by decide)).append hfront
  rw [Names, Target.url, List.append_assoc, List.append_assoc, cString_append hbefore, ht,
    ← List.append_assoc (ascii "auth="), List.append_assoc]

/-- The path of a child ends with the C string of its key. -/
theorem childPath_bytes (root_path : CStr) (day : Bytes) :
    (childPath root_path day).bytes = root_path.bytes ++ ascii "/" ++ cString day :=
  cString_append (root_path.nulFree.append (by decide)) day

/-- A `PUT`, a `POST` or a plain `GET` has the token as its only parameter. -/
theorem names_dataTarget (base path : CStr) (auth_token : Bytes) :
    ∃ token, Names (cString ((dataTarget base path).url auth_token)) base.bytes path.bytes
      (ascii "auth=" ++ token) := by
  refine ⟨cString auth_token, ?_⟩
  rw [← cString_append (by decide)]
  have h := names_target (t := dataTarget base path) (List.append_nil _).symm (by decide) auth_token
  rwa [List.nil_append, show (dataTarget base path).after = [] from rfl, List.append_nil] at h

theorem names_deleteTarget (base path : CStr) (auth_token : Bytes) :
    ∃ query, Names (cString ((deleteTarget base path).url auth_token)) base.bytes path.bytes
      query := by
  refine ⟨_, @names_target _ _ _ (ascii "writeSizeLimit=unlimited&") ?_ (by decide) auth_token⟩
  rw [deleteTarget, List.append_assoc _ (ascii ".json?")]
  rfl

theorem names_patchTarget (base root_path : CStr) (auth_token : Bytes) :
    ∃ query, Names (cString ((patchTarget base root_path).url auth_token)) base.bytes
      root_path.bytes query :=
  ⟨_, names_target (t := patchTarget base root_path) (List.append_nil _).symm (by decide)
    auth_token⟩

/-- The listing of the names is a shallow one. -/
theorem names_shallowTarget (base root_path : CStr) (auth_token : Bytes) :
    ∃ query, Names (cString ((shallowTarget base root_path).url auth_token)) base.bytes
        root_path.bytes query ∧
      parameter query (ascii "shallow") = some (ascii "true") := by
  refine ⟨_, @names_target _ _ _ (ascii "shallow=true&") ?_ (by decide) auth_token, ?_⟩
  · rw [shallowTarget, List.append_assoc _ (ascii ".json?")]
    rfl
  · exact @parameter_first (ascii "shallow") (ascii "true") (by decide) _

/-- The listing of the first records is ordered by key and has the limit it was asked for. -/
theorem names_listTarget (base root_path : CStr) (batch_size : Int) (auth_token : Bytes) :
    ∃ query, Names (cString ((listTarget base root_path batch_size).url auth_token)) base.bytes
        root_path.bytes query ∧
      parameter query (ascii "orderBy") = some (ascii "%22%24key%22") ∧
      parameter query (ascii "limitToFirst") = some (ascii (toString batch_size)) := by
  have hfront : NulFree (ascii "orderBy=%22%24key%22&limitToFirst=" ++ ascii (toString batch_size)
      ++ ascii "&") := ((by decide : NulFree (ascii "orderBy=%22%24key%22&limitToFirst=")).append
        (nulFree_toString batch_size)).append (by decide)
  have hlimit : ch '&' ∉ ascii "limitToFirst" ++ ascii "=" ++ ascii (toString batch_size) := by
    intro hmem
    rcases List.mem_append.mp hmem with hmem | hmem
    · exact absurd hmem (by decide)
    · rcases mem_ascii_toString hmem with h | h
      · exact absurd h (by decide)
      · exact absurd h.1 (by decide)
  have hquery : ∀ rest, ascii "orderBy=%22%24key%22&limitToFirst=" ++ ascii (toString batch_size)
      ++ ascii "&" ++ rest = ascii "orderBy" ++ ascii "=" ++ ascii "%22%24key%22" ++ ch '&' ::
        (ascii "limitToFirst" ++ ascii "=" ++ ascii (toString batch_size) ++ ch '&' :: rest) := by
    simp [ascii, ch]
  refine ⟨_, names_target (t := listTarget base root_path batch_size) ?_ hfront auth_token, ?_, ?_⟩
  · simp only [listTarget, List.append_assoc]
    rfl
  · rw [hquery]
    exact parameter_first (by decide) _
  · rw [hquery, parameter_next (by decide) (by decide)]
    exact parameter_first hlimit _

end PppAmb
