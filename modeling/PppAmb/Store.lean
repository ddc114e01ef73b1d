import Mathlib.Data.List.Forall2

/-!
# Ordered Stores

Finite maps as lists of entries in key order: `std::map`, and the children of a node of a
key-value database. A `Store` carries the proof that its keys increase.

## Main results

* `size_put`: a write adds at most one entry, and adds none if the key is there.
* `mem_keys_dropFirst_of_not_lt`: dropping the first entries leaves the later keys.
* `erase_firstKeys`: erasing the keys of the first entries leaves the entries behind them.
* `Store.Matches.put`, `Store.Matches.dropFirst`: maps that match go on matching.
-/

namespace PppAmb

section Entries

variable {κ υ : Type} [LT κ] [DecidableLT κ] [DecidableEq κ]

/-- The value of a key in a list of entries. -/
def assocGet (key : κ) : List (κ × υ) → Option υ
  | [] => none
  | (k, v) :: es => if k = key then some v else assocGet key es

/-- The value of a key is replaced, or inserted in key order. -/
def assocSet (key : κ) (v : υ) : List (κ × υ) → List (κ × υ)
  | [] => [(key, v)]
  | (k, u) :: es =>
      if k = key then (key, v) :: es
      else if key < k then (key, v) :: (k, u) :: es
      else (k, u) :: assocSet key v es

/-- The keys of the entries increase. -/
def Increasing (es : List (κ × υ)) : Prop :=
  es.Pairwise fun a b => a.1 < b.1

theorem mem_assocSet {key : κ} {v : υ} {es : List (κ × υ)} {e : κ × υ}
    (h : e ∈ assocSet key v es) : e = (key, v) ∨ e ∈ es := by
  induction es with
  | nil => exact Or.inl (by simpa [assocSet] using h)
  | cons a es ih =>
      obtain ⟨k, u⟩ := a
      rw [assocSet] at h
      split at h
      · rcases List.mem_cons.mp h with h | h
        · exact Or.inl h
        · exact Or.inr (List.mem_cons_of_mem _ h)
      · split at h
        · rcases List.mem_cons.mp h with h | h
          · exact Or.inl h
          · exact Or.inr h
        · rcases List.mem_cons.mp h with h | h
          · exact Or.inr (h ▸ List.mem_cons_self)
          · rcases ih h with h | h
            · exact Or.inl h
            · exact Or.inr (List.mem_cons_of_mem _ h)

/-- A write adds its key to the keys. -/
theorem mem_keys_assocSet {key k : κ} {v : υ} {es : List (κ × υ)} :
    k ∈ (assocSet key v es).map Prod.fst ↔ k = key ∨ k ∈ es.map Prod.fst := by
  induction es with
  | nil => simp [assocSet]
  | cons a es ih =>
      obtain ⟨l, u⟩ := a
      rw [assocSet]
      split
      · rename_i hl
        simp [hl]
      · split
        · simp
        · rw [List.map_cons, List.mem_cons, ih, List.map_cons, List.mem_cons]
          exact or_left_comm

/-- A write adds an entry, or it replaces one. -/
theorem length_assocSet (key : κ) (v : υ) (es : List (κ × υ)) :
    (assocSet key v es).length = es.length ∨ (assocSet key v es).length = es.length + 1 := by
  induction es with
  | nil => exact Or.inr rfl
  | cons a es ih =>
      obtain ⟨k, u⟩ := a
      rw [assocSet]
      split
      · exact Or.inl rfl
      · split
        · exact Or.inr rfl
        · rcases ih with h | h
          · exact Or.inl (by simp [h])
          · exact Or.inr (by simp [h])

/-- Setting a value twice sets it once. -/
theorem assocSet_assocSet (key : κ) (v : υ) (es : List (κ × υ)) :
    assocSet key v (assocSet key v es) = assocSet key v es := by
  induction es with
  | nil => simp [assocSet]
  | cons a es ih =>
      obtain ⟨k, u⟩ := a
      by_cases heq : k = key
      · simp [assocSet, heq]
      · by_cases hlt : key < k
        · simp [assocSet, heq, hlt]
        · simp [assocSet, heq, hlt, ih]

variable [LE κ] [Std.LawfulOrderLT κ] [Std.IsLinearOrder κ]

/-- A key behind all others is added at the end. -/
theorem assocSet_of_forall_lt {key : κ} {es : List (κ × υ)} (h : ∀ e ∈ es, e.1 < key) (v : υ) :
    assocSet key v es = es ++ [(key, v)] := by
  induction es with
  | nil => rfl
  | cons a es ih =>
      obtain ⟨k, u⟩ := a
      obtain ⟨hlt, hrest⟩ := List.forall_mem_cons.mp h
      have hne : k ≠ key := fun heq => Std.lt_irrefl (heq ▸ hlt)
      have hge : ¬ key < k := fun hgt => Std.lt_irrefl (Std.lt_trans hlt hgt)
      rw [assocSet, if_neg hne, if_neg hge, ih hrest, List.cons_append]

theorem Increasing.assocSet {es : List (κ × υ)} (h : Increasing es) (key : κ) (v : υ) :
    Increasing (assocSet key v es) := by
  induction es with
  | nil => exact List.pairwise_singleton _ _
  | cons a es ih =>
      obtain ⟨k, u⟩ := a
      obtain ⟨hhead, htail⟩ := List.pairwise_cons.mp h
      rw [PppAmb.assocSet]
      split
      · rename_i hk
        subst hk
        exact List.pairwise_cons.mpr ⟨hhead, htail⟩
      · rename_i hne
        split
        · rename_i hlt
          refine List.pairwise_cons.mpr ⟨fun e he => ?_, h⟩
          rcases List.mem_cons.mp he with rfl | he
          · exact hlt
          · exact Std.lt_trans hlt (hhead e he)
        · rename_i hge
          refine List.pairwise_cons.mpr ⟨fun e he => ?_, ih htail⟩
          rcases mem_assocSet he with rfl | he
          · rcases Std.lt_trichotomy k key with hlt | heq | hgt
            · exact hlt
            · exact absurd heq hne
            · exact absurd hgt hge
          · exact hhead e he

end Entries

/-- A finite map in key order. -/
structure Store (κ υ : Type) [LT κ] where
  entries : List (κ × υ)
  increasing : Increasing entries

section Operations

variable {κ υ : Type} [LT κ]

/-- The store without entries. -/
def Store.empty : Store κ υ :=
  ⟨[], List.Pairwise.nil⟩

/-- The number of entries. -/
def Store.size (d : Store κ υ) : ℕ :=
  d.entries.length

/-- The keys, in order. -/
def Store.keys (d : Store κ υ) : List κ :=
  d.entries.map Prod.fst

/-- The store without its first `n` entries. -/
def Store.dropFirst (d : Store κ υ) (n : ℕ) : Store κ υ :=
  ⟨d.entries.drop n, d.increasing.sublist (List.drop_sublist n d.entries)⟩

@[simp] theorem size_dropFirst (d : Store κ υ) (n : ℕ) : (d.dropFirst n).size = d.size - n :=
  List.length_drop

theorem keys_dropFirst (d : Store κ υ) (n : ℕ) : (d.dropFirst n).keys = d.keys.drop n :=
  List.map_drop

/-- What is left behind the first entries is left with everything behind it. -/
theorem mem_keys_dropFirst_of_not_lt {d : Store κ υ} {n : ℕ} {k k' : κ}
    (hk : k ∈ (d.dropFirst n).keys) (hk' : k' ∈ d.keys) (h : ¬ k' < k) :
    k' ∈ (d.dropFirst n).keys := by
  rw [keys_dropFirst] at hk ⊢
  have hpair : (d.keys.take n ++ d.keys.drop n).Pairwise (· < ·) := by
    rw [List.take_append_drop]
    exact List.pairwise_map.mpr d.increasing
  rw [← List.take_append_drop n d.keys, List.mem_append] at hk'
  exact hk'.resolve_left fun hfirst => h ((List.pairwise_append.mp hpair).2.2 k' hfirst k hk)

variable [DecidableEq κ]

/-- The store without the given keys. -/
def Store.erase (d : Store κ υ) (keys : List κ) : Store κ υ :=
  ⟨d.entries.filter fun e => e.1 ∉ keys, d.increasing.sublist List.filter_sublist⟩

/-- Erasing once more changes nothing. -/
@[simp] theorem erase_erase (d : Store κ υ) (keys : List κ) :
    (d.erase keys).erase keys = d.erase keys := by
  simp only [Store.erase, List.filter_filter, Bool.and_self]

theorem keys_erase (d : Store κ υ) (keys : List κ) :
    (d.erase keys).keys = d.keys.filter (· ∉ keys) := by
  simp only [Store.keys, Store.erase, List.filter_map]
  rfl

theorem erase_erase_append (d : Store κ υ) (keys keys' : List κ) :
    (d.erase keys).erase keys' = d.erase (keys ++ keys') := by
  simp only [Store.erase, List.filter_filter, List.mem_append, not_or, Bool.decide_and,
    Bool.and_comm]

@[simp] theorem erase_nil (d : Store κ υ) : d.erase [] = d := by
  simp [Store.erase]

variable [LE κ] [Std.LawfulOrderLT κ]

omit [DecidableEq κ] in
/-- No key occurs twice. -/
theorem Store.nodup_keys (d : Store κ υ) : d.keys.Nodup := by
  refine List.pairwise_map.mpr (List.Pairwise.imp ?_ d.increasing)
  intro a b hlt heq
  rw [heq] at hlt
  exact Std.lt_irrefl hlt

/-- Erasing one key removes one entry, if the key is there. -/
theorem size_erase_singleton (d : Store κ υ) (key : κ) :
    (d.erase [key]).size + (if key ∈ d.keys then 1 else 0) = d.size := by
  have hsize : ∀ d : Store κ υ, d.size = d.keys.length := fun d => (List.length_map _).symm
  have hkeys : (d.erase [key]).keys = d.keys.erase key := by
    rw [keys_erase, List.Nodup.erase_eq_filter d.nodup_keys]
    refine List.filter_congr fun k _ => ?_
    by_cases hk : k = key
    · simp [hk]
    · simp [hk, bne_iff_ne.mpr hk]
  rw [hsize, hsize, hkeys]
  split
  · rename_i hmem
    rw [List.length_erase_of_mem hmem]
    have hpos := List.length_pos_of_mem hmem
    omega
  · rename_i hmem
    rw [List.erase_of_not_mem hmem]
    rfl

/-- Erasing the keys of the first `n` entries leaves the entries behind them. -/
theorem erase_firstKeys (d : Store κ υ) (n : ℕ) :
    d.erase ((d.entries.take n).map Prod.fst) = d.dropFirst n := by
  obtain ⟨es, hes⟩ := d
  have hpair : (es.take n ++ es.drop n).Pairwise fun a b => a.1 < b.1 := by
    rwa [List.take_append_drop]
  obtain ⟨-, -, hcross⟩ := List.pairwise_append.mp hpair
  have hfirst : (es.take n).filter (fun e => e.1 ∉ (es.take n).map Prod.fst) = [] := by
    rw [List.filter_eq_nil_iff]
    intro e he
    simp only [decide_eq_true_eq, not_not]
    exact List.mem_map_of_mem he
  have hrest : (es.drop n).filter (fun e => e.1 ∉ (es.take n).map Prod.fst) = es.drop n := by
    rw [List.filter_eq_self]
    intro e he
    simp only [decide_eq_true_eq, List.mem_map, not_exists, not_and]
    intro a ha heq
    have hlt := hcross a ha e he
    rw [heq] at hlt
    exact Std.lt_irrefl hlt
  have hkeep : es.filter (fun e => e.1 ∉ (es.take n).map Prod.fst) = es.drop n := by
    calc es.filter (fun e => e.1 ∉ (es.take n).map Prod.fst)
        = (es.take n ++ es.drop n).filter (fun e => e.1 ∉ (es.take n).map Prod.fst) := by
          rw [List.take_append_drop]
      _ = es.drop n := by rw [List.filter_append, hfirst, hrest, List.nil_append]
  simp only [Store.erase, Store.dropFirst, hkeep]

variable [Std.IsLinearOrder κ] [DecidableLT κ]

/-- The store with one value set. -/
def Store.put (d : Store κ υ) (key : κ) (v : υ) : Store κ υ :=
  ⟨assocSet key v d.entries, d.increasing.assocSet key v⟩

@[simp] theorem put_put (d : Store κ υ) (key : κ) (v : υ) : (d.put key v).put key v = d.put key v := by
  simp only [Store.put, assocSet_assocSet]

theorem mem_keys_put (d : Store κ υ) (key k : κ) (v : υ) :
    k ∈ (d.put key v).keys ↔ k = key ∨ k ∈ d.keys :=
  mem_keys_assocSet

theorem size_put (d : Store κ υ) (key : κ) (v : υ) :
    (d.put key v).size = d.size ∨ (d.put key v).size = d.size + 1 :=
  length_assocSet key v d.entries

end Operations

/-! ### Maps that match -/

section Matching

variable {κ υ υ' : Type} [LT κ] {R : υ → υ' → Prop}

/-- Two maps with the same keys and related values. -/
def Store.Matches (R : υ → υ' → Prop) (d : Store κ υ) (d' : Store κ υ') : Prop :=
  List.Forall₂ (fun e e' => e.1 = e'.1 ∧ R e.2 e'.2) d.entries d'.entries

theorem Store.Matches.size {d : Store κ υ} {d' : Store κ υ'} (h : d.Matches R d') :
    d.size = d'.size :=
  h.length_eq

theorem Store.Matches.dropFirst {d : Store κ υ} {d' : Store κ υ'} (h : d.Matches R d') (n : ℕ) :
    (d.dropFirst n).Matches R (d'.dropFirst n) :=
  List.forall₂_drop n h

/-- The same keys with other values. -/
def Store.map (f : υ → υ') (d : Store κ υ) : Store κ υ' where
  entries := d.entries.map fun e => (e.1, f e.2)
  increasing := by
    rw [Increasing, List.pairwise_map]
    exact d.increasing

theorem matches_map {f : υ' → υ} (h : ∀ v, R (f v) v) (d : Store κ υ') :
    (d.map f).Matches R d := by
  refine List.forall₂_map_left_iff.mpr (List.forall₂_same.mpr fun e _ => ⟨rfl, h e.2⟩)

variable [DecidableLT κ] [DecidableEq κ]

theorem forall₂_assocSet {es : List (κ × υ)} {es' : List (κ × υ')}
    (h : List.Forall₂ (fun e e' => e.1 = e'.1 ∧ R e.2 e'.2) es es') {v : υ} {v' : υ'}
    (hv : R v v') (key : κ) :
    List.Forall₂ (fun e e' => e.1 = e'.1 ∧ R e.2 e'.2) (assocSet key v es)
      (assocSet key v' es') := by
  induction h with
  | nil => exact .cons ⟨rfl, hv⟩ .nil
  | @cons e e' es es' hfirst hrest ih =>
      obtain ⟨k, u⟩ := e
      obtain ⟨k', u'⟩ := e'
      obtain ⟨rfl, hu⟩ := hfirst
      simp only [assocSet]
      split
      · exact .cons ⟨rfl, hv⟩ hrest
      · split
        · exact .cons ⟨rfl, hv⟩ (.cons ⟨rfl, hu⟩ hrest)
        · exact .cons ⟨rfl, hu⟩ ih

variable [LE κ] [Std.LawfulOrderLT κ] [Std.IsLinearOrder κ]

theorem Store.Matches.put {d : Store κ υ} {d' : Store κ υ'} (h : d.Matches R d') {v : υ} {v' : υ'}
    (hv : R v v') (key : κ) : (d.put key v).Matches R (d'.put key v') :=
  forall₂_assocSet h hv key

end Matching

end PppAmb
