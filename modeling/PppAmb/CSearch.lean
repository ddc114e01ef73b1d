import Mathlib.Data.List.DropRight
import PppAmb.CString

/-!
# Searching C Strings

`strstr`, `strchr` and `strtok_r` of the C library on byte strings, with what cutting a
text does to them.

## Main results

* `strstr_append`: what is found in the first part of a text is found in the text.
* `dropWhile_prefix_mono`, `rdropWhile_prefix_mono`: trimming the beginning of a text.
* `splitOn_of_isPrefix`: the fields of a cut text are the fields of the text, the last one
  cut.
-/

namespace PppAmb

/-- `strlcpy` into an array of `size > 0` bytes: what the array then holds. -/
def strlcpy (src : Bytes) (size : ℕ) : Bytes :=
  src.take (size - 1)

/-- `strstr`: the rest of the text from the first occurrence of the pattern on. -/
def strstr (pattern : Bytes) : Bytes → Option Bytes
  | [] => if pattern = [] then some [] else none
  | c :: s => if pattern.isPrefixOf (c :: s) then some (c :: s) else strstr pattern s

/-- The text before the first occurrence of a byte and the text behind it: `strchr`. -/
def cutAt (b : UInt8) : Bytes → Option (Bytes × Bytes)
  | [] => none
  | c :: s => if c = b then some ([], s) else (cutAt b s).map fun p => (c :: p.1, p.2)

/-- The tokens that successive calls of `strtok_r` with one delimiter return: the
non-empty fields. -/
def strtok_r (delim : UInt8) (s : Bytes) : List Bytes :=
  (s.splitOn delim).filter fun field => field ≠ []

/-! ### The first occurrence -/

/-- What is found begins with the pattern, and the text ends with it. -/
theorem strstr_suffix {pattern r s : Bytes} (h : strstr pattern s = some r) :
    ∃ u v, s = u ++ r ∧ r = pattern ++ v := by
  induction s with
  | nil =>
      rw [strstr] at h
      split at h
      · rename_i hpat
        obtain rfl := Option.some.inj h
        exact ⟨[], [], rfl, by simp [hpat]⟩
      · exact absurd h (by simp)
  | cons c s ih =>
      rw [strstr] at h
      split at h
      · rename_i hpre
        obtain rfl := Option.some.inj h
        obtain ⟨v, hv⟩ := List.isPrefixOf_iff_prefix.mp hpre
        exact ⟨[], v, rfl, hv.symm⟩
      · obtain ⟨u, v, hs, hr⟩ := ih h
        exact ⟨c :: u, v, by rw [hs, List.cons_append], hr⟩

theorem strstr_occurs {pattern r s : Bytes} (h : strstr pattern s = some r) :
    ∃ u v, s = u ++ pattern ++ v := by
  obtain ⟨u, v, hs, hr⟩ := strstr_suffix h
  exact ⟨u, v, by rw [hs, hr, List.append_assoc]⟩

/-- What is found in the first part of a text is found in the text. -/
theorem strstr_append {pattern r s : Bytes} (h : strstr pattern s = some r) (t : Bytes) :
    strstr pattern (s ++ t) = some (r ++ t) := by
  induction s with
  | nil =>
      rw [strstr] at h
      split at h
      · rename_i hpat
        subst hpat
        obtain rfl := Option.some.inj h
        cases t <;> simp [strstr]
      · exact absurd h (by simp)
  | cons c s ih =>
      rw [strstr] at h
      rw [List.cons_append, strstr]
      split at h
      · rename_i hpre
        obtain rfl := Option.some.inj h
        have hpre' : pattern.isPrefixOf (c :: (s ++ t)) = true := by
          rw [List.isPrefixOf_iff_prefix] at hpre ⊢
          exact hpre.trans (List.prefix_append (c :: s) t)
        rw [if_pos hpre', List.cons_append]
      · rename_i hpre
        by_cases hpre' : pattern.isPrefixOf (c :: (s ++ t)) = true
        · exfalso
          have hlen : pattern.length ≤ s.length := by
            obtain ⟨u, v, huv⟩ := strstr_occurs h
            rw [huv, List.length_append, List.length_append]
            omega
          apply hpre
          rw [List.isPrefixOf_iff_prefix] at hpre' ⊢
          exact List.prefix_of_prefix_length_le hpre' (List.prefix_append (c :: s) t)
            (by rw [List.length_cons]; omega)
        · rw [if_neg hpre']
          exact ih h

/-- A pattern is found exactly when it occurs. -/
theorem strstr_isSome_iff {pattern s : Bytes} : (strstr pattern s).isSome ↔ pattern <:+: s := by
  constructor
  · intro h
    obtain ⟨r, hr⟩ := Option.isSome_iff_exists.mp h
    obtain ⟨u, v, rfl⟩ := strstr_occurs hr
    exact ⟨u, v, rfl⟩
  · intro h
    induction s with
    | nil => simp [strstr, List.infix_nil.mp h]
    | cons c s ih =>
        rw [strstr]
        split
        · rfl
        · rename_i hpre
          rw [List.isPrefixOf_iff_prefix] at hpre
          exact ih ((List.infix_cons_iff.mp h).resolve_left hpre)

/-- A pattern is found at the front of a text. -/
theorem strstr_front (pattern t : Bytes) : strstr pattern (pattern ++ t) = some (pattern ++ t) := by
  rcases pattern with _ | ⟨c, pattern⟩
  · cases t <;> simp [strstr]
  · have hfront : (c :: pattern).isPrefixOf (c :: (pattern ++ t)) = true :=
      List.isPrefixOf_iff_prefix.mpr (List.prefix_append (c :: pattern) t)
    rw [List.cons_append, strstr, if_pos hfront]

/-- What no occurrence begins in is passed over. -/
theorem strstr_skip {pattern x y : Bytes}
    (h : ∀ u v, x = u ++ v → v ≠ [] → ¬ pattern <+: v ++ y) :
    strstr pattern (x ++ y) = strstr pattern y := by
  induction x with
  | nil => rfl
  | cons c x ih =>
      have hfront : ¬ pattern.isPrefixOf (c :: (x ++ y)) = true := by
        rw [List.isPrefixOf_iff_prefix]
        exact h [] (c :: x) rfl (by simp)
      rw [List.cons_append, strstr, if_neg hfront]
      exact ih fun u v hx => h (c :: u) v (by rw [hx, List.cons_append])

/-- A pattern whose first byte does not occur again in it is found where it first stands. -/
theorem strstr_first {p : UInt8} {ps pre : Bytes} (hhead : p ∉ ps)
    (hnone : strstr (p :: ps) pre = none) (rest : Bytes) :
    strstr (p :: ps) (pre ++ ((p :: ps) ++ rest)) = some ((p :: ps) ++ rest) := by
  induction pre with
  | nil =>
      have hpre : (p :: ps).isPrefixOf (p :: (ps ++ rest)) = true :=
        List.isPrefixOf_iff_prefix.mpr (List.prefix_append (p :: ps) rest)
      rw [List.nil_append, List.cons_append, strstr, if_pos hpre]
  | cons c pre ih =>
      rw [strstr] at hnone
      split at hnone
      · exact absurd hnone (by simp)
      · rename_i hpre
        rw [List.cons_append, strstr, if_neg, ih hnone]
        -- an occurrence from here on would end within the pattern, and hold its first byte again
        intro hover
        rw [List.isPrefixOf_iff_prefix] at hpre hover
        rw [← List.cons_append] at hover
        rcases List.prefix_or_prefix_of_prefix hover (List.prefix_append (c :: pre) _) with
          hshort | ⟨q, hq⟩
        · exact hpre hshort
        · rcases q with _ | ⟨x, q⟩
          · rw [List.append_nil] at hq
            exact hpre (hq ▸ List.prefix_rfl)
          · rw [← hq, List.prefix_append_right_inj, hq, List.cons_append] at hover
            obtain ⟨rfl, -⟩ := List.cons_prefix_cons.mp hover
            rw [List.cons_append, List.cons.injEq] at hq
            exact hhead (hq.2 ▸ List.mem_append_right _ List.mem_cons_self)

/-! ### Trimming -/

/-- White space around a text that neither starts nor ends with it. -/
theorem trim_padded (p : UInt8 → Bool) {before text after : Bytes} (hbefore : ∀ c ∈ before, p c)
    (hafter : ∀ c ∈ after, p c) (hhead : ∀ c ∈ text.head?, p c = false)
    (hlast : ∀ c ∈ text.getLast?, p c = false) :
    ((before ++ text ++ after).dropWhile p).rdropWhile p = text := by
  have hend : ∀ {t : Bytes}, (∀ c ∈ t.getLast?, p c = false) → (t ++ after).rdropWhile p = t := by
    intro t ht
    induction after using List.reverseRecOn with
    | nil =>
        rw [List.append_nil, List.rdropWhile_eq_self_iff]
        intro hne
        simp [ht _ (List.getLast?_eq_getLast_of_ne_nil hne)]
    | append_singleton after c ih =>
        have hc : p c := hafter c (by simp)
        rw [← List.append_assoc, List.rdropWhile_concat_pos _ _ _ hc]
        exact ih fun x hx => hafter x (by simp [hx])
  rw [List.append_assoc, List.dropWhile_append_of_pos hbefore]
  rcases text with _ | ⟨c, text⟩
  · rw [List.nil_append, List.dropWhile_eq_nil_iff.mpr hafter]
    rfl
  · have hc : p c = false := hhead c rfl
    rw [List.cons_append, List.dropWhile_cons_of_neg (by simp [hc]), ← List.cons_append]
    exact hend hlast

theorem dropWhile_prefix_mono (p : UInt8 → Bool) {x y : Bytes} (h : x <+: y) :
    x.dropWhile p <+: y.dropWhile p := by
  induction x generalizing y with
  | nil => exact List.nil_prefix
  | cons c x ih =>
      obtain ⟨t, rfl⟩ := h
      rw [List.cons_append, List.dropWhile_cons, List.dropWhile_cons]
      split
      · exact ih (List.prefix_append x t)
      · exact List.prefix_append (c :: x) t

theorem rdropWhile_prefix_mono (p : UInt8 → Bool) {x y : Bytes} (h : x <+: y) :
    x.rdropWhile p <+: y.rdropWhile p := by
  induction y using List.reverseRecOn with
  | nil =>
      rw [List.prefix_nil.mp h]
  | append_singleton y c ih =>
      rcases List.prefix_concat_iff.mp h with rfl | hxy
      · exact List.prefix_rfl
      · rw [List.rdropWhile_concat]
        split
        · exact ih hxy
        · exact (ih hxy).trans ((List.rdropWhile_prefix p y).trans (List.prefix_append y [c]))

/-- A byte that does not occur is not cut at. -/
theorem cutAt_eq_none {b : UInt8} {s : Bytes} (h : b ∉ s) : cutAt b s = none := by
  induction s with
  | nil => rfl
  | cons c s ih =>
      rw [List.mem_cons, not_or] at h
      rw [cutAt, if_neg (fun hc => h.1 hc.symm), ih h.2]
      rfl

/-- The first occurrence of a byte. -/
theorem cutAt_append {b : UInt8} {s : Bytes} (h : b ∉ s) (t : Bytes) :
    cutAt b (s ++ b :: t) = some (s, t) := by
  induction s with
  | nil => simp [cutAt]
  | cons c s ih =>
      rw [List.mem_cons, not_or] at h
      rw [List.cons_append, cutAt, if_neg (fun hc => h.1 hc.symm), ih h.2]
      rfl

/-- What stands in front of the byte is the beginning of the text. -/
theorem cutAt_prefix {b : UInt8} {s p q : Bytes} (h : cutAt b s = some (p, q)) : p <+: s := by
  induction s generalizing p with
  | nil => exact absurd h (by simp [cutAt])
  | cons c s ih =>
      rw [cutAt] at h
      split at h
      · obtain ⟨rfl, -⟩ := Prod.mk.inj (Option.some.inj h)
        exact List.nil_prefix
      · obtain ⟨⟨p', q'⟩, hcut, hpq⟩ := Option.map_eq_some_iff.mp h
        obtain ⟨rfl, rfl⟩ := Prod.mk.inj hpq
        exact List.cons_prefix_cons.mpr ⟨rfl, ih hcut⟩

/-! ### Fields -/

/-- The first field of a text. -/
theorem splitOn_append_cons {b : UInt8} {s : Bytes} (h : b ∉ s) (t : Bytes) :
    (s ++ b :: t).splitOn b = s :: t.splitOn b := by
  induction s with
  | nil => simp [List.splitOn_cons_eq_if_modifyHead]
  | cons c s ih =>
      rw [List.mem_cons, not_or] at h
      have hc : ¬ (c == b) = true := by simpa using fun hc => h.1 hc.symm
      rw [List.cons_append, List.splitOn_cons_eq_if_modifyHead, if_neg hc, ih h.2]
      rfl

/-- The first field goes up to the first delimiter. -/
theorem splitOn_head (b : UInt8) (s : Bytes) :
    ∃ rest, s.splitOn b = s.takeWhile (· ≠ b) :: rest := by
  induction s with
  | nil => exact ⟨[], by simp⟩
  | cons c s ih =>
      obtain ⟨rest, hrest⟩ := ih
      rw [List.splitOn_cons_eq_if_modifyHead, hrest]
      by_cases hc : c = b
      · exact ⟨s.takeWhile (· ≠ b) :: rest, by simp [hc]⟩
      · exact ⟨rest, by simp [hc]⟩

/-- What occurs in a list occurs on one side of an element that is not in it. -/
theorem infix_append_cons {α : Type*} {b : α} {pattern s t : List α} (hb : b ∉ pattern) :
    pattern <:+: s ++ b :: t ↔ pattern <:+: s ∨ pattern <:+: t := by
  constructor
  · rintro ⟨u, v, huv⟩
    rcases List.append_eq_append_iff.mp huv with ⟨w, hs, -⟩ | ⟨w, hup, hv⟩
    · exact Or.inl ⟨u, w, hs.symm⟩
    · rcases w with _ | ⟨x, w⟩
      · exact Or.inl ⟨u, [], by simpa using hup⟩
      · rw [List.cons_append, List.cons.injEq] at hv
        obtain ⟨rfl, rfl⟩ := hv
        rcases List.append_eq_append_iff.mp hup with ⟨z, hs, hz⟩ | ⟨z, hu, hz⟩
        · exact absurd (hz ▸ List.mem_append_right _ List.mem_cons_self) hb
        · rcases z with _ | ⟨y, z⟩
          · rw [List.nil_append] at hz
            exact absurd (hz ▸ List.mem_cons_self) hb
          · rw [List.cons_append, List.cons.injEq] at hz
            exact Or.inr ⟨z, v, by rw [hz.2]⟩
  · rintro (⟨u, v, rfl⟩ | ⟨u, v, rfl⟩)
    · exact ⟨u, v ++ b :: t, by simp⟩
    · exact ⟨s ++ b :: u, v, by simp⟩

/-- A pattern without the delimiter occurs in one of the fields. -/
theorem infix_intercalate {b : UInt8} {pattern : Bytes} (hb : b ∉ pattern) {fields : List Bytes}
    (hne : fields ≠ []) :
    pattern <:+: [b].intercalate fields ↔ ∃ field ∈ fields, pattern <:+: field := by
  induction fields with
  | nil => exact absurd rfl hne
  | cons field fields ih =>
      rcases fields with _ | ⟨next, fields⟩
      · simp
      · rw [List.intercalate_cons_cons, List.append_assoc, List.singleton_append,
          infix_append_cons hb, ih (by simp)]
        simp

/-- Texts with a delimiter between them. -/
theorem splitOn_append (b : UInt8) (s t : Bytes) :
    (s ++ b :: t).splitOn b = s.splitOn b ++ t.splitOn b := by
  induction s with
  | nil => simp [List.splitOn_cons_eq_if_modifyHead]
  | cons c s ih =>
      rw [List.cons_append, List.splitOn_cons_eq_if_modifyHead, List.splitOn_cons_eq_if_modifyHead,
        ih]
      obtain ⟨y, rest, hs⟩ := List.exists_cons_of_ne_nil (List.splitOn_ne_nil b s)
      rw [hs]
      by_cases hc : c = b
      · simp [hc]
      · simp [hc]

/-- A pattern around a byte occurs around the first such byte of a text, or behind it. -/
theorem infix_cons_cases {b : UInt8} {u v s t : Bytes} (hs : b ∉ s) (hu : b ∉ u)
    (h : u ++ b :: v <:+: s ++ b :: t) : (u <:+ s ∧ v <+: t) ∨ u ++ b :: v <:+: t := by
  obtain ⟨x, y, hxy⟩ := h
  have heq : (x ++ u) ++ b :: (v ++ y) = s ++ b :: t := by
    rw [← hxy]
    simp
  rcases append_cons_eq_append_cons heq with ⟨hw, ht⟩ | ⟨w, hw, ht⟩ | ⟨w, hw, -⟩
  · exact Or.inl ⟨⟨x, hw⟩, ⟨y, ht⟩⟩
  · -- the byte in front is not in `u`, so `u` lies behind it
    have hw' : x ++ u = (s ++ [b]) ++ w := by rw [hw]; simp
    rcases List.append_eq_append_iff.mp hw' with ⟨z, hz, hu'⟩ | ⟨z, -, hw''⟩
    · rcases List.eq_nil_or_concat z with rfl | ⟨z, c, rfl⟩
      · exact Or.inr ⟨[], y, by rw [ht, hu']; simp⟩
      · have hc : b = c := by
          rw [List.concat_eq_append, ← List.append_assoc] at hz
          exact (List.cons.inj (List.append_inj_right' hz rfl)).1
        exact absurd (by rw [hu', hc]; simp) hu
    · exact Or.inr ⟨z, y, by rw [ht, hw'']; simp⟩
  · exact absurd (by rw [hw]; simp) hs

theorem intercalate_append (b : UInt8) {l l' : List Bytes} (hl : l ≠ []) (hl' : l' ≠ []) :
    [b].intercalate (l ++ l') = [b].intercalate l ++ b :: [b].intercalate l' := by
  induction l with
  | nil => exact absurd rfl hl
  | cons f l ih =>
      rcases l with _ | ⟨g, l⟩
      · rw [List.singleton_append, List.intercalate_cons_of_ne_nil hl']
        simp
      · have hfg : [b].intercalate (f :: g :: l) = f ++ [b] ++ [b].intercalate (g :: l) :=
          List.intercalate_cons_of_ne_nil (by simp)
        rw [List.cons_append, List.intercalate_cons_of_ne_nil (by simp), ih (by simp), hfg]
        simp only [List.append_assoc, List.cons_append]

/-- What occurs behind the first element and before the last one. -/
theorem infix_tail_dropLast_iff {α : Type*} {inner l : List α} (hinner : inner ≠ []) :
    inner <:+: l.tail.dropLast ↔
      ∃ before after, l = before ++ inner ++ after ∧ before ≠ [] ∧ after ≠ [] := by
  constructor
  · rintro ⟨u, v, huv⟩
    rcases l with _ | ⟨a, l⟩
    · simp [hinner] at huv
    · have hne : l ≠ [] := by
        rintro rfl
        simp [hinner] at huv
      refine ⟨a :: u, v ++ [l.getLast hne], ?_, by simp, by simp⟩
      rw [List.tail_cons] at huv
      calc a :: l = a :: (l.dropLast ++ [l.getLast hne]) := by rw [List.dropLast_concat_getLast]
        _ = a :: u ++ inner ++ (v ++ [l.getLast hne]) := by rw [← huv]; simp
  · rintro ⟨before, after, rfl, hbefore, hafter⟩
    rcases before with _ | ⟨a, before⟩
    · exact absurd rfl hbefore
    · refine ⟨before, after.dropLast, ?_⟩
      rw [List.cons_append, List.cons_append, List.tail_cons, List.dropLast_append_of_ne_nil hafter]

/-- Fields between two delimiters occur exactly when they are consecutive fields with others
on both sides. -/
theorem enclosed_infix_iff {b : UInt8} {fields : List Bytes} (inner : List Bytes)
    (hfields : fields ≠ []) (hcomma : ∀ field ∈ fields, b ∉ field) (hinner : inner ≠ [])
    (hinnerComma : ∀ field ∈ inner, b ∉ field) :
    b :: ([b].intercalate inner ++ [b]) <:+: [b].intercalate fields ↔
      inner <:+: fields.tail.dropLast := by
  rw [infix_tail_dropLast_iff hinner]
  constructor
  · rintro ⟨u, v, huv⟩
    have hsplit : fields = u.splitOn b ++ (inner ++ v.splitOn b) := by
      have heq : [b].intercalate fields
          = u ++ b :: ([b].intercalate inner ++ b :: v) := by
        rw [← huv]
        simp
      rw [← List.splitOn_intercalate b hcomma hfields, heq, splitOn_append, splitOn_append,
        List.splitOn_intercalate b hinnerComma hinner]
    exact ⟨_, _, by rw [hsplit, List.append_assoc], List.splitOn_ne_nil b u,
      List.splitOn_ne_nil b v⟩
  · rintro ⟨before, after, rfl, hbefore, hafter⟩
    refine ⟨[b].intercalate before, [b].intercalate after, ?_⟩
    rw [List.append_assoc before, intercalate_append b hbefore (by simp [hinner]),
      intercalate_append b hinner hafter]
    simp

/-- The fields of the beginning of a text are fields of the text, except that the last one
may be cut. -/
theorem splitOn_of_isPrefix (b : UInt8) : ∀ {v u : Bytes}, v <+: u →
    ∃ fields x y rest, v.splitOn b = fields ++ [x] ∧ u.splitOn b = fields ++ y :: rest ∧
      x <+: y := by
  intro v
  induction v with
  | nil =>
      intro u _
      obtain ⟨y, rest, hu⟩ := List.exists_cons_of_ne_nil (List.splitOn_ne_nil b u)
      exact ⟨[], [], y, rest, by simp, by simpa using hu, List.nil_prefix⟩
  | cons c v ih =>
      rintro u ⟨t, rfl⟩
      obtain ⟨fields, x, y, rest, hv, hu, hxy⟩ := ih (List.prefix_append v t)
      rw [List.cons_append, List.splitOn_cons_eq_if_modifyHead, List.splitOn_cons_eq_if_modifyHead,
        hv, hu]
      by_cases hc : c = b
      · refine ⟨[] :: fields, x, y, rest, ?_, ?_, hxy⟩ <;> simp [hc]
      · have hc' : ¬ (c == b) = true := by simpa using hc
        rw [if_neg hc', if_neg hc']
        cases fields with
        | nil =>
            exact ⟨[], c :: x, c :: y, rest, by simp, by simp, List.cons_prefix_cons.mpr ⟨rfl, hxy⟩⟩
        | cons f fields =>
            exact ⟨(c :: f) :: fields, x, y, rest, by simp, by simp, hxy⟩

end PppAmb
