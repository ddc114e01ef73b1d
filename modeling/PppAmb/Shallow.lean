import Mathlib.Algebra.BigOperators.Group.List.Basic
import Mathlib.Algebra.GroupWithZero.Nat
import PppAmb.CutReader

/-!
# Reading a Cut Listing of Names

With `shallow=true` the database lists the names of the children only, each with the value
`true`, in an order of its own. This module says exactly which of the names the JSON reader
has stored when only the first bytes of such a listing have arrived: a name is stored as soon
as the colon behind it is read, whatever becomes of its value.

## Main results

* `readString_take`: a cut string is read exactly when its closing quote is there.
* `parse_shallow_cut`: the names that are stored from a cut listing.
* `shallow_names_cut`: the names in order, if they are listed in some other order.
* `namesWithin_eq_length_of_listing`: all of them are, unless more than the last five bytes of
  the listing are missing.
-/

namespace PppAmb

/-! ### Strings -/

theorem readString_full {raw : Bytes} (hraw : isRawString raw = true) (r : Bytes) :
    readString (raw ++ ch '"' :: r) = some (raw, r) := by
  fun_induction isRawString raw with
  | case1 => exact readString_quote r
  | case2 c => simp [readString_plain hraw, readString_quote]
  | case3 e r' ih =>
      simp only [Bool.and_eq_true] at hraw
      simp [readString_escape, ih hraw.2]
  | case4 c e r' hc ih =>
      simp only [Bool.and_eq_true] at hraw
      rw [List.cons_append, readString_plain hraw.1, ih hraw.2]
      rfl

/-- What `readString` takes off the input. -/
theorem length_readString {inp raw r : Bytes} (h : readString inp = some (raw, r)) :
    inp.length = raw.length + 1 + r.length := by
  fun_induction readString inp generalizing raw r with
  | case1 => exact absurd h (by simp)
  | case2 =>
      obtain ⟨rfl, rfl⟩ := Prod.mk.inj (Option.some.inj h)
      rfl
  | case3 => exact absurd h (by simp)
  | case4 e r' ih =>
      obtain ⟨⟨raw', rest⟩, hq, heq⟩ := Option.map_eq_some_iff.mp h
      obtain ⟨rfl, rfl⟩ := Prod.mk.inj heq
      have hlen := ih hq
      simp only [List.length_cons]
      omega
  | case5 e r' _ =>
      obtain ⟨rfl, rfl⟩ := Prod.mk.inj (Option.some.inj h)
      simp only [List.length_cons, List.length_nil]
      omega
  | case6 c e r' _ _ ih =>
      obtain ⟨⟨raw', rest⟩, hq, heq⟩ := Option.map_eq_some_iff.mp h
      obtain ⟨rfl, rfl⟩ := Prod.mk.inj heq
      have hlen := ih hq
      simp only [List.length_cons] at hlen ⊢
      omega

/-- A cut string is read exactly when its closing quote is there. -/
theorem readString_take {raw : Bytes} (hraw : isRawString raw = true) (tail : Bytes) (n : ℕ) :
    readString ((raw ++ ch '"' :: tail).take n)
      = if raw.length + 1 ≤ n then some (raw, tail.take (n - (raw.length + 1))) else none := by
  split
  · rename_i hn
    have hcut : (raw ++ ch '"' :: tail).take n = raw ++ ch '"' :: tail.take (n - (raw.length + 1)) := by
      obtain ⟨k, rfl⟩ := Nat.exists_eq_add_of_le hn
      rw [List.take_append, List.take_of_length_le (by omega)]
      have hk : raw.length + 1 + k - raw.length = k + 1 := by omega
      rw [hk, List.take_succ_cons, Nat.add_sub_cancel_left]
    rw [hcut, readString_full hraw]
  · rename_i hn
    rcases readString_cut hraw tail n with h | h
    · exact h
    · have hlen := length_readString h
      have htake := List.length_take_le n (raw ++ ch '"' :: tail)
      omega

/-! ### Listings -/

/-- A child as it is listed: the text of its name, and the name. -/
structure ListedName where
  raw : Bytes
  key : Bytes
  valid : isRawString raw = true
  decoded : decodeString raw = some key

/-- The member that stands for a child. -/
def ListedName.member (name : ListedName) : Bytes × Bytes :=
  (name.raw, ascii "true")

/-- The listing of some children. -/
def shallowListing (names : List ListedName) : Bytes :=
  objectText (names.map ListedName.member)

/-- The length of the listing behind its brace. -/
def listedLength (names : List ListedName) : ℕ :=
  (names.map fun name => name.raw.length + 8).sum

/-- How many of the names have their colon within the first `n` bytes behind the brace. -/
def namesWithin : ℕ → List ListedName → ℕ
  | _, [] => 0
  | n, name :: names =>
      if name.raw.length + 3 ≤ n then namesWithin (n - (name.raw.length + 8)) names + 1 else 0

theorem namesWithin_le (n : ℕ) (names : List ListedName) : namesWithin n names ≤ names.length := by
  induction names generalizing n with
  | nil => exact le_rfl
  | cons name names ih =>
      rw [namesWithin]
      split
      · have hle := ih (n - (name.raw.length + 8))
        simp only [List.length_cons]
        omega
      · exact Nat.zero_le _

@[simp] theorem namesWithin_zero (names : List ListedName) : namesWithin 0 names = 0 := by
  cases names <;> simp [namesWithin]

/-- All names have their colon exactly when at most the last five bytes are missing. -/
theorem namesWithin_eq_length_iff (n : ℕ) {names : List ListedName} (hne : names ≠ []) :
    namesWithin n names = names.length ↔ listedLength names ≤ n + 5 := by
  induction names generalizing n with
  | nil => exact absurd rfl hne
  | cons name names ih =>
      rw [namesWithin]
      cases names with
      | nil =>
          simp only [namesWithin, listedLength, List.map_cons, List.map_nil, List.sum_cons,
            List.sum_nil, List.length_singleton]
          split <;> omega
      | cons name' names =>
          have hrest := ih (n - (name.raw.length + 8)) (by simp)
          have hlong : 8 ≤ listedLength (name' :: names) := by
            simp only [listedLength, List.map_cons, List.sum_cons]
            omega
          have hsum : listedLength (name :: name' :: names)
              = name.raw.length + 8 + listedLength (name' :: names) := rfl
          rw [hsum, List.length_cons (a := name)]
          split
          · rw [Nat.add_right_cancel_iff, hrest]
            omega
          · omega

theorem length_shallowListing {names : List ListedName} (hne : names ≠ []) :
    (shallowListing names).length = listedLength names + 1 := by
  have htail : ∀ names : List ListedName,
      (itemsTail (ch '}') ((names.map ListedName.member).map memberText)).length
        = listedLength names + 1 := by
    intro names
    induction names with
    | nil => rfl
    | cons name names ih =>
        have htrue : (ascii "true").length = 4 := rfl
        have hsum : listedLength (name :: names) = name.raw.length + 8 + listedLength names := rfl
        simp only [List.map_cons, itemsTail, memberText, ListedName.member, List.length_cons,
          List.length_append, ih, htrue, hsum]
        omega
  cases names with
  | nil => exact absurd rfl hne
  | cons name names =>
      have htrue : (ascii "true").length = 4 := rfl
      have hsum : listedLength (name :: names) = name.raw.length + 8 + listedLength names := rfl
      simp only [shallowListing, objectText, List.map_cons, bracketed, memberText, ListedName.member,
        List.length_cons, List.length_append, htail names, htrue, hsum]
      omega

/-- All names of a cut listing have their colon exactly when there are none, or when at most
the last five bytes of the listing are missing. -/
theorem namesWithin_eq_length_of_listing (n : ℕ) (names : List ListedName) :
    namesWithin n names = names.length ↔
      names.length = 0 ∨ (shallowListing names).length ≤ n + 6 := by
  by_cases hne : names = []
  · simp [hne, namesWithin]
  · have hpos : 0 < names.length := List.length_pos_iff.mpr hne
    rw [namesWithin_eq_length_iff n hne, length_shallowListing hne]
    omega

/-! ### The reader -/

/-- The value `true`, cut somewhere: it is read, or the reader has failed. -/
theorem readValue_true_cut (depth : ℕ) (current : Value) (tail : Bytes) (n : ℕ) :
    ∃ v r, readValue (depth + 1) current ((ascii "true" ++ tail).take n)
        = some (decide (4 ≤ n), v, r) ∧ (4 ≤ n → r = tail.take (n - 4)) := by
  rcases n with _ | _ | _ | _ | n
  · exact ⟨current, [], rfl, by omega⟩
  · exact ⟨current, [], rfl, by omega⟩
  · exact ⟨current, ascii "r", rfl, by omega⟩
  · exact ⟨current, ascii "ru", rfl, by omega⟩
  · refine ⟨.booleanValue true, tail.take n, ?_, fun _ => rfl⟩
    have htoken : readToken (ascii "true" ++ tail.take n) = (.true, tail.take n) := rfl
    have hcut : (ascii "true" ++ tail).take (n + 1 + 1 + 1 + 1) = ascii "true" ++ tail.take n := rfl
    rw [hcut, readValue, skipCommentTokens_eq (by rw [htoken]; simp), htoken]
    simp

/-- What is stored from a cut listing: an object with the names up to the given number, in
addition to the members from before. -/
def NamesStored (members : List (Bytes × Value)) (names : List ListedName) (res : ReadResult) :
    Prop :=
  ∃ ok out r, res = some (ok, .objectValue out, r) ∧ (Increasing members → Increasing out) ∧
    ∀ k, k ∈ out.map Prod.fst ↔ k ∈ members.map Prod.fst ∨ k ∈ names.map ListedName.key

theorem namesStored_nil (members : List (Bytes × Value)) (ok : Bool) (r : Bytes) :
    NamesStored members [] (some (ok, .objectValue members, r)) :=
  ⟨ok, members, r, rfl, id, by simp⟩

theorem namesStored_cons {members : List (Bytes × Value)} {name : ListedName}
    {names : List ListedName} {v : Value} {res : ReadResult}
    (h : NamesStored (setMember name.key v members) names res) :
    NamesStored members (name :: names) res := by
  obtain ⟨ok, out, r, hres, hinc, hkeys⟩ := h
  refine ⟨ok, out, r, hres, fun hm => hinc (hm.assocSet name.key v), fun k => ?_⟩
  rw [hkeys, setMember, mem_keys_assocSet, List.map_cons, List.mem_cons]
  tauto

section Member

variable (depth fuel : ℕ) (last : Bytes) (members : List (Bytes × Value)) (name : ListedName)
  (tail : Bytes) {n : ℕ}

/-- A member that is cut before the end of its colon is not stored. -/
theorem readMembers_before_colon (hn : n < name.raw.length + 3) :
    ∃ r, readMembers (readValue (depth + 1)) (fuel + 1) last members
      ((memberText name.member ++ tail).take n) = some (false, .objectValue members, r) := by
  cases n with
  | zero => exact ⟨_, rfl⟩
  | succ n =>
      have htoken := readToken_quote
        ((name.raw ++ ch '"' :: ch ':' :: (ascii "true" ++ tail)).take n)
      rw [readString_take name.valid] at htoken
      simp only [memberText, ListedName.member, List.cons_append, List.append_assoc,
        List.take_succ_cons, readMembers]
      by_cases hquote : name.raw.length + 1 ≤ n
      · have hzero : n - (name.raw.length + 1) = 0 := by omega
        rw [if_pos hquote, hzero] at htoken
        rw [skipCommentTokens_eq (by rw [htoken]; simp), htoken]
        simp only [name.decoded]
        exact ⟨_, rfl⟩
      · rw [if_neg hquote] at htoken
        rw [skipCommentTokens_eq (by rw [htoken]; simp), htoken]
        exact ⟨_, rfl⟩

/-- A member whose colon is there is stored, with what is left of its value; the reader goes
on if there is more. -/
theorem readMembers_after_colon (hn : name.raw.length + 3 ≤ n) :
    ∃ v, (n < name.raw.length + 8 → ∃ r,
        readMembers (readValue (depth + 1)) (fuel + 1) last members
          ((memberText name.member ++ tail).take n)
            = some (false, .objectValue (setMember name.key v members), r)) ∧
      (name.raw.length + 8 ≤ n → ∀ t,
        (tail = ch ',' :: t → readMembers (readValue (depth + 1)) (fuel + 1) last members
            ((memberText name.member ++ tail).take n)
          = readMembers (readValue (depth + 1)) fuel name.key (setMember name.key v members)
              (t.take (n - (name.raw.length + 8)))) ∧
        (tail = ch '}' :: t → readMembers (readValue (depth + 1)) (fuel + 1) last members
            ((memberText name.member ++ tail).take n)
          = some (true, .objectValue (setMember name.key v members),
              t.take (n - (name.raw.length + 8))))) := by
  obtain ⟨k, rfl⟩ := Nat.exists_eq_add_of_le hn
  have htoken := readToken_quote
    ((name.raw ++ ch '"' :: ch ':' :: (ascii "true" ++ tail)).take (name.raw.length + 2 + k))
  have hk : name.raw.length + 2 + k - (name.raw.length + 1) = k + 1 := by omega
  rw [readString_take name.valid, if_pos (by omega), hk] at htoken
  obtain ⟨v, r, hread, hrest⟩ := readValue_true_cut depth
    ((getMember name.key members).getD .nullValue) tail k
  have hlen : name.raw.length + 3 + k = name.raw.length + 2 + k + 1 := by omega
  refine ⟨v, fun hshort => ?_, fun hlong t => ?_⟩
  · rw [hlen]
    simp only [memberText, ListedName.member, List.cons_append, List.append_assoc,
      List.take_succ_cons, readMembers]
    rw [skipCommentTokens_eq (by rw [htoken]; simp), htoken]
    simp only [name.decoded, List.take_succ_cons, readToken_colon, hread]
    by_cases hok : 4 ≤ k
    · -- the value is there, but nothing behind it
      have hfour : k - 4 = 0 := by omega
      rw [hrest hok, hfour, decide_eq_true hok]
      exact ⟨_, rfl⟩
    · rw [decide_eq_false hok]
      exact ⟨_, rfl⟩
  · have hok : 4 ≤ k := by omega
    obtain ⟨j, rfl⟩ : ∃ j, k = 5 + j := Nat.exists_eq_add_of_le (by omega)
    have hj : 5 + j - 4 = j + 1 := by omega
    have hj' : name.raw.length + 3 + (5 + j) - (name.raw.length + 8) = j := by omega
    rw [hj', hlen]
    simp only [memberText, ListedName.member, List.cons_append, List.append_assoc,
      List.take_succ_cons, readMembers]
    rw [skipCommentTokens_eq (by rw [htoken]; simp), htoken]
    simp only [name.decoded, List.take_succ_cons, readToken_colon, hread]
    rw [hrest hok, hj, decide_eq_true hok]
    exact ⟨fun htail => by rw [htail]; rfl, fun htail => by rw [htail]; rfl⟩

end Member

/-- **Reading the names of a cut listing.** Those are stored that have their colon. -/
theorem readMembers_shallow (depth : ℕ) (names : List ListedName) :
    ∀ (fuel : ℕ) (last : Bytes) (members : List (Bytes × Value)) (name : ListedName) (n : ℕ),
      ((memberText name.member ++ itemsTail (ch '}')
        ((names.map ListedName.member).map memberText)).take n).length < fuel →
      NamesStored members ((name :: names).take (namesWithin n (name :: names)))
        (readMembers (readValue (depth + 1)) fuel last members
          ((memberText name.member ++ itemsTail (ch '}')
            ((names.map ListedName.member).map memberText)).take n)) := by
  -- on the names behind the first one; the fuel covers the bytes that are left
  induction names with
  | nil =>
      intro fuel last members name n hfuel
      obtain ⟨fuel, rfl⟩ : ∃ f, fuel = f + 1 := Nat.exists_eq_add_of_le' (by omega)
      rw [namesWithin]
      by_cases hcolon : name.raw.length + 3 ≤ n
      · obtain ⟨v, hshort, hlong⟩ := readMembers_after_colon depth fuel last members name
          (itemsTail (ch '}') []) hcolon
        rw [if_pos hcolon]
        rcases Nat.lt_or_ge n (name.raw.length + 8) with hlt | hge
        · obtain ⟨r, hres⟩ := hshort hlt
          rw [List.map_nil, List.map_nil, hres]
          exact namesStored_cons (namesStored_nil _ _ _)
        · rw [List.map_nil, List.map_nil, (hlong hge []).2 rfl]
          exact namesStored_cons (namesStored_nil _ _ _)
      · obtain ⟨r, hres⟩ := readMembers_before_colon depth fuel last members name
          (itemsTail (ch '}') (([] : List ListedName).map ListedName.member |>.map memberText))
          (Nat.lt_of_not_le hcolon)
        rw [if_neg hcolon, hres]
        exact namesStored_nil _ _ _
  | cons name' names ih =>
      intro fuel last members name n hfuel
      obtain ⟨fuel, rfl⟩ : ∃ f, fuel = f + 1 := Nat.exists_eq_add_of_le' (by omega)
      rw [namesWithin]
      by_cases hcolon : name.raw.length + 3 ≤ n
      · obtain ⟨v, hshort, hlong⟩ := readMembers_after_colon depth fuel last members name
          (itemsTail (ch '}') (((name' :: names).map ListedName.member).map memberText)) hcolon
        rw [if_pos hcolon]
        rcases Nat.lt_or_ge n (name.raw.length + 8) with hlt | hge
        · obtain ⟨r, hres⟩ := hshort hlt
          have hzero : n - (name.raw.length + 8) = 0 := by omega
          rw [hres, hzero, namesWithin_zero]
          exact namesStored_cons (namesStored_nil _ _ _)
        · have hmore := ih fuel name.key (setMember name.key v members) name'
            (n - (name.raw.length + 8)) (by
              simp only [memberText, ListedName.member, itemsTail, List.map_cons, List.length_take,
                List.length_append, List.length_cons] at hfuel ⊢
              omega)
          rw [(hlong hge _).1 rfl]
          exact namesStored_cons hmore
      · obtain ⟨r, hres⟩ := readMembers_before_colon depth fuel last members name
          (itemsTail (ch '}') (((name' :: names).map ListedName.member).map memberText))
          (Nat.lt_of_not_le hcolon)
        rw [if_neg hcolon, hres]
        exact namesStored_nil _ _ _

/-- **A cut listing.** Of a listing of which the first `n + 1` bytes have arrived, the reader
makes an object with the names that have their colon there, in order. -/
theorem parse_shallow_cut (names : List ListedName) (n : ℕ) :
    ∃ out, parse ((shallowListing names).take (n + 1)) = some (.objectValue out) ∧
      Increasing out ∧ ∀ k, k ∈ out.map Prod.fst ↔
        k ∈ (names.take (namesWithin n names)).map ListedName.key := by
  have hstored : NamesStored [] (names.take (namesWithin n names))
      (readValue stackLimit .nullValue ((shallowListing names).take (n + 1))) := by
    cases names with
    | nil =>
        rcases n with _ | n
        · exact namesStored_nil [] false []
        · have hread : readValue stackLimit .nullValue ((shallowListing []).take (n + 1 + 1))
              = some (true, .objectValue [], []) := by
            rw [List.take_of_length_le (by simp [shallowListing, objectText, bracketed])]
            rfl
          rw [hread]
          exact namesStored_nil [] true []
    | cons name names =>
        have hlist : (shallowListing (name :: names)).take (n + 1)
            = ch '{' :: (memberText name.member ++ itemsTail (ch '}')
              ((names.map ListedName.member).map memberText)).take n := rfl
        rw [hlist, stackLimit, readValue, skipCommentTokens_eq (by simp), readToken_objectBegin]
        exact readMembers_shallow 998 names _ [] [] name n (Nat.lt_succ_self _)
  obtain ⟨ok, out, r, hres, hinc, hkeys⟩ := hstored
  refine ⟨out, by rw [parse, hres]; rfl, hinc List.Pairwise.nil, fun k => ?_⟩
  simpa using hkeys k

/-- The names that are read come in order, and are all the keys if all of them have their
colon. -/
theorem shallow_names_cut {names : List ListedName} {keys : List Bytes}
    (hperm : (names.map ListedName.key).Perm keys) (hkeys : keys.Pairwise (· < ·)) (n : ℕ) :
    ∃ days, parse ((shallowListing names).take (n + 1)) = some (.objectValue days) ∧
      (days.map Prod.fst).Pairwise (· < ·) ∧ days.length = namesWithin n names ∧
      (namesWithin n names = names.length → days.map Prod.fst = keys) := by
  have hnodup : ∀ {l : List Bytes}, l.Pairwise (· < ·) → l.Nodup := by
    intro l hl
    refine hl.imp fun {a b} hlt heq => ?_
    rw [heq] at hlt
    exact Std.lt_irrefl hlt
  obtain ⟨out, hparse, hinc, hmem⟩ := parse_shallow_cut names n
  have hdays : (out.map Prod.fst).Pairwise (· < ·) := List.pairwise_map.mpr hinc
  have htake : ((names.take (namesWithin n names)).map ListedName.key).Nodup :=
    (hperm.nodup_iff.mpr (hnodup hkeys)).sublist ((List.take_sublist _ _).map _)
  have hout : (out.map Prod.fst).Perm ((names.take (namesWithin n names)).map ListedName.key) :=
    (List.perm_ext_iff_of_nodup (hnodup hdays) htake).mpr hmem
  refine ⟨out, hparse, hdays, ?_, fun hall => ?_⟩
  · have hlen := hout.length_eq
    rw [List.length_map, List.length_map, List.length_take] at hlen
    rw [hlen, Nat.min_eq_left (namesWithin_le n names)]
  · rw [hall, List.take_length] at hout
    refine List.Perm.eq_of_pairwise (fun a b _ _ hab hba => ?_) hdays hkeys (hout.trans hperm)
    exact absurd (Std.lt_trans hab hba) Std.lt_irrefl

end PppAmb
