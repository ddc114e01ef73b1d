import Mathlib.Algebra.Polynomial.FieldDivision
import Mathlib.RingTheory.AdjoinRoot

/-!
# Polynomial Codes

A word over a ring is read as a polynomial whose leading coefficient is its first symbol. A
shift register with feedback divides such polynomials: a shift multiplies the polynomial of its
contents by `X`, modulo the generator that belongs to the feedback. This module is the library
of such registers and of the errors they detect. Nothing here refers to the program.

## Main results

* `mk_register`: what a register that is fed with words of its own width holds, modulo the
  generator.
* `register_add_eq_iff`: an error goes unnoticed exactly when the generator divides its
  polynomial.
* `not_dvd_of_isBurst`: a generator with a constant term divides no error that is confined to as
  many places as its degree.
* `not_dvd_of_sum_ne_zero`: a generator with the root 1 divides no error whose symbols do not add
  up to zero.
-/

namespace PppAmb

open Polynomial

/-! ### Words as polynomials -/

section Words

variable {K : Type*} [CommRing K]

/-- The polynomial of a word. -/
noncomputable def wordPoly : List K → K[X]
  | [] => 0
  | a :: s => C a * X ^ s.length + wordPoly s

/-- The empty word. -/
@[simp] theorem wordPoly_nil : wordPoly ([] : List K) = 0 :=
  rfl

/-- The first letter of a word is its highest coefficient. -/
@[simp] theorem wordPoly_cons (a : K) (s : List K) :
    wordPoly (a :: s) = C a * X ^ s.length + wordPoly s :=
  rfl

/-- A word in front is moved up by the length of what follows. -/
theorem wordPoly_append (s t : List K) :
    wordPoly (s ++ t) = wordPoly s * X ^ t.length + wordPoly t := by
  induction s with
  | nil => simp
  | cons a s ih =>
      rw [List.cons_append, wordPoly_cons, ih, wordPoly_cons, List.length_append, pow_add]
      ring

/-- A word of zeros is the zero polynomial. -/
theorem wordPoly_of_zeros {s : List K} (h : ∀ a ∈ s, a = 0) : wordPoly s = 0 := by
  induction s with
  | nil => rfl
  | cons a s ih =>
      obtain ⟨rfl, hs⟩ := List.forall_mem_cons.mp h
      rw [wordPoly_cons, ih hs, map_zero, zero_mul, add_zero]

/-- A word has a degree below its length. -/
theorem degree_wordPoly_lt (s : List K) : (wordPoly s).degree < s.length := by
  induction s with
  | nil => simp
  | cons a s ih =>
      have hlen : (s.length : WithBot ℕ) < (a :: s).length := by
        exact_mod_cast Nat.lt_succ_self s.length
      have hlead : (C a * X ^ s.length : K[X]).degree < (a :: s).length :=
        lt_of_le_of_lt (degree_C_mul_X_pow_le _ _) hlen
      have hrest : (wordPoly s).degree < (a :: s).length := lt_trans ih hlen
      exact lt_of_le_of_lt (degree_add_le _ _) (max_lt hlead hrest)

/-- Words of the same length with the same polynomial are the same. -/
theorem wordPoly_inj {s t : List K} (hlen : s.length = t.length) (h : wordPoly s = wordPoly t) :
    s = t := by
  induction s generalizing t with
  | nil => exact (List.length_eq_zero_iff.mp hlen.symm).symm
  | cons a s ih =>
      obtain ⟨b, t, rfl⟩ := List.exists_cons_of_length_eq_add_one hlen.symm
      have hst : s.length = t.length := by simpa using hlen
      -- the leading symbol is the coefficient that the rest does not reach
      have hs : (wordPoly s).coeff t.length = 0 :=
        coeff_eq_zero_of_degree_lt (hst ▸ degree_wordPoly_lt s)
      have ht : (wordPoly t).coeff t.length = 0 := coeff_eq_zero_of_degree_lt (degree_wordPoly_lt t)
      have hab : a = b := by
        have hcoeff := congrArg (coeff · t.length) h
        simpa [hst, hs, ht] using hcoeff
      subst hab
      rw [wordPoly_cons, wordPoly_cons, hst] at h
      rw [ih hst (add_left_cancel h)]

/-- Only a word of zeros is the zero polynomial. -/
theorem zeros_of_wordPoly {s : List K} (h : wordPoly s = 0) : ∀ a ∈ s, a = 0 := by
  have hzeros : wordPoly (List.replicate s.length (0 : K)) = 0 :=
    wordPoly_of_zeros fun a ha => List.eq_of_mem_replicate ha
  have hs : s = List.replicate s.length 0 :=
    wordPoly_inj (by rw [List.length_replicate]) (h.trans hzeros.symm)
  exact fun a ha => (List.eq_replicate_iff.mp hs).2 a ha

/-- The sum of two words, symbol by symbol. -/
def addWords (s t : List K) : List K :=
  List.zipWith (· + ·) s t

/-- A word keeps its length when an error is added. -/
@[simp] theorem length_addWords {s t : List K} (h : s.length = t.length) :
    (addWords s t).length = t.length := by
  rw [addWords, List.length_zipWith, h, Nat.min_self]

/-- Adding words is adding their polynomials. -/
theorem wordPoly_addWords {s t : List K} (h : s.length = t.length) :
    wordPoly (addWords s t) = wordPoly s + wordPoly t := by
  induction s generalizing t with
  | nil =>
      obtain rfl := List.length_eq_zero_iff.mp h.symm
      simp [addWords]
  | cons a s ih =>
      obtain ⟨b, t, rfl⟩ := List.exists_cons_of_length_eq_add_one h.symm
      have hlen : s.length = t.length := by simpa using h
      change wordPoly ((a + b) :: addWords s t) = _
      rw [wordPoly_cons, length_addWords hlen, ih hlen, wordPoly_cons, wordPoly_cons, hlen, C_add]
      ring

/-- Words of the same width are added one by one or all at once. -/
theorem flatten_addWords {n : ℕ} {words errors : List (List K)} (hwords : ∀ w ∈ words, w.length = n)
    (herrors : ∀ e ∈ errors, e.length = n) (hlen : words.length = errors.length) :
    (List.zipWith addWords words errors).flatten = addWords words.flatten errors.flatten ∧
      words.flatten.length = errors.flatten.length := by
  induction words generalizing errors with
  | nil =>
      obtain rfl := List.length_eq_zero_iff.mp hlen.symm
      exact ⟨rfl, rfl⟩
  | cons w words ih =>
      obtain ⟨e, errors, rfl⟩ := List.exists_cons_of_length_eq_add_one hlen.symm
      obtain ⟨hw, hwords⟩ := List.forall_mem_cons.mp hwords
      obtain ⟨he, herrors⟩ := List.forall_mem_cons.mp herrors
      obtain ⟨hflat, hsame⟩ := ih hwords herrors (by simpa using hlen)
      have hwe : w.length = e.length := hw.trans he.symm
      refine ⟨?_, by rw [List.flatten_cons, List.flatten_cons, List.length_append,
        List.length_append, hwe, hsame]⟩
      rw [List.zipWith_cons_cons, List.flatten_cons, hflat, List.flatten_cons, List.flatten_cons]
      exact (List.zipWith_append hwe).symm

/-- Errors do not change the width of the words. -/
theorem width_addWords {n : ℕ} {words errors : List (List K)} (hwords : ∀ w ∈ words, w.length = n)
    (herrors : ∀ e ∈ errors, e.length = n) :
    ∀ w ∈ List.zipWith addWords words errors, w.length = n := by
  intro w hw
  rw [← List.map_uncurry_zip_eq_zipWith] at hw
  obtain ⟨⟨a, b⟩, hab, rfl⟩ := List.mem_map.mp hw
  obtain ⟨ha, hb⟩ := List.of_mem_zip hab
  rw [Function.uncurry_apply_pair, length_addWords ((hwords a ha).trans (herrors b hb).symm),
    herrors b hb]

/-- The value at one is the sum of the letters: the parity of a word over two elements. -/
theorem eval_one_wordPoly (s : List K) : (wordPoly s).eval 1 = s.sum := by
  induction s with
  | nil => simp
  | cons a s ih => simp [ih]

end Words

/-! ### Errors a generator does not divide -/

/-- The symbols other than zero stand within `n` consecutive places. -/
def IsBurst {K : Type*} [Zero K] (n : ℕ) (s : List K) : Prop :=
  ∃ i, ∀ j a, s[j]? = some a → a ≠ 0 → i ≤ j ∧ j < i + n

/-- A part of a word is hit by a part of the burst. -/
theorem IsBurst.part {K : Type*} [Zero K] {n : ℕ} {s t : List K} (h : IsBurst n s)
    (hts : t <:+: s) : IsBurst n t := by
  obtain ⟨i, hi⟩ := h
  obtain ⟨u, v, rfl⟩ := hts
  have hplace (j : ℕ) (a : K) (hj : t[j]? = some a) : (u ++ t ++ v)[u.length + j]? = some a := by
    rw [List.append_assoc, List.getElem?_append_right (by omega), Nat.add_sub_cancel_left,
      List.getElem?_append_left (List.getElem?_eq_some_iff.mp hj).1, hj]
  -- a burst that starts in front of the part may reach into it
  refine ⟨i - u.length, fun j a hj ha => ?_⟩
  have hij := hi _ a (hplace j a hj) ha
  omega

section Errors

variable {K : Type*} [Field K]

/-- **Bursts.** The error is a power of `X` times a polynomial of small degree. -/
theorem not_dvd_of_isBurst {g : K[X]} {n : ℕ} {s : List K} (hconst : g.coeff 0 ≠ 0)
    (hdeg : n ≤ g.natDegree) (hburst : IsBurst n s) (hne : ∃ a ∈ s, a ≠ 0) :
    ¬ g ∣ wordPoly s := by
  obtain ⟨i, hi⟩ := hburst
  set mid := (s.drop i).take n with hmid
  set behind := (s.drop i).drop n with hbehind
  have hsplit : s = s.take i ++ (mid ++ behind) := by
    rw [hmid, hbehind, List.take_append_drop, List.take_append_drop]
  have hfront : ∀ a ∈ s.take i, a = 0 := by
    intro a ha
    obtain ⟨j, hj⟩ := List.mem_iff_getElem?.mp ha
    rw [List.getElem?_take] at hj
    split at hj
    · by_contra hzero
      have := hi j a hj hzero
      omega
    · simp at hj
  have hback : ∀ a ∈ behind, a = 0 := by
    intro a ha
    obtain ⟨j, hj⟩ := List.mem_iff_getElem?.mp ha
    rw [hbehind, List.getElem?_drop, List.getElem?_drop] at hj
    by_contra hzero
    have := hi _ a hj hzero
    omega
  have hword : wordPoly s = wordPoly mid * X ^ behind.length := by
    rw [hsplit, wordPoly_append, wordPoly_append, wordPoly_of_zeros hfront,
      wordPoly_of_zeros hback, zero_mul, zero_add, add_zero]
  have hcoprime : IsCoprime g (X ^ behind.length) := by
    have hX : IsCoprime (X : K[X]) g := by
      rw [irreducible_X.coprime_iff_not_dvd, X_dvd_iff]
      exact hconst
    exact hX.symm.pow_right
  intro hdvd
  rw [hword] at hdvd
  have hsmall : (wordPoly mid).degree < g.degree := by
    have hg : g ≠ 0 := fun h => hconst (by rw [h, coeff_zero])
    rw [degree_eq_natDegree hg]
    refine lt_of_lt_of_le (degree_wordPoly_lt mid) ?_
    have hlen : mid.length ≤ n := List.length_take_le _ _
    exact_mod_cast hlen.trans hdeg
  have hmidzero : ∀ a ∈ mid, a = 0 :=
    zeros_of_wordPoly (eq_zero_of_dvd_of_degree_lt (hcoprime.dvd_of_dvd_mul_right hdvd) hsmall)
  obtain ⟨a, ha, hzero⟩ := hne
  rw [hsplit, List.mem_append, List.mem_append] at ha
  rcases ha with ha | ha | ha
  · exact hzero (hfront a ha)
  · exact hzero (hmidzero a ha)
  · exact hzero (hback a ha)

/-- **Parity.** The value of the error at 1 is the sum of its symbols. -/
theorem not_dvd_of_sum_ne_zero {g : K[X]} {s : List K} (hroot : g.eval 1 = 0) (hsum : s.sum ≠ 0) :
    ¬ g ∣ wordPoly s := by
  intro hdvd
  have hzero := eval_dvd hdvd (x := 1)
  rw [hroot, eval_one_wordPoly, zero_dvd_iff] at hzero
  exact hsum hzero

end Errors

/-! ### The shift register -/

section Register

variable {K : Type*} [CommRing K] (taps : List K)

/-- One shift: the symbol that leaves the register in front is fed back through the taps. -/
def shiftStep : List K → List K
  | [] => []
  | a :: reg => addWords (reg ++ [0]) (taps.map (a * ·))

/-- The generator of the feedback. -/
noncomputable def generator : K[X] :=
  X ^ taps.length - wordPoly taps

/-- The register takes up a word of its own width. -/
def feed (reg word : List K) : List K :=
  (shiftStep taps)^[taps.length] (addWords reg word)

/-- The register behind some words. -/
def register (reg : List K) (words : List (List K)) : List K :=
  words.foldl (feed taps) reg

/-- The register after one more word. -/
theorem register_cons (reg word : List K) (words : List (List K)) :
    register taps reg (word :: words) = register taps (feed taps reg word) words :=
  rfl

variable {taps}

/-- A word whose letters are multiplied. -/
theorem wordPoly_map_mul (a : K) (s : List K) : wordPoly (s.map (a * ·)) = C a * wordPoly s := by
  induction s with
  | nil => simp
  | cons b s ih =>
      rw [List.map_cons, wordPoly_cons, ih, List.length_map, C_mul, wordPoly_cons]
      ring

/-- A shift keeps the length of the register. -/
theorem length_shiftStep {reg : List K} (h : reg.length = taps.length) :
    (shiftStep taps reg).length = taps.length := by
  cases reg with
  | nil => exact h
  | cons a reg =>
      have hlen : (reg ++ [0]).length = (taps.map (a * ·)).length := by
        simpa using h
      rw [shiftStep, length_addWords hlen, List.length_map]

/-- **A shift** multiplies by `X`. -/
theorem mk_shiftStep {reg : List K} (h : reg.length = taps.length) :
    AdjoinRoot.mk (generator taps) (wordPoly (shiftStep taps reg))
      = AdjoinRoot.mk (generator taps) (X * wordPoly reg) := by
  rw [AdjoinRoot.mk_eq_mk]
  cases reg with
  | nil => simp [shiftStep]
  | cons a reg =>
      have hlen : (reg ++ [0]).length = (taps.map (a * ·)).length := by
        simpa using h
      have hreg : taps.length = reg.length + 1 := by
        simpa using h.symm
      refine ⟨- C a, ?_⟩
      rw [shiftStep, wordPoly_addWords hlen, wordPoly_append, wordPoly_map_mul, wordPoly_cons,
        generator, hreg]
      simp
      ring

/-- Several shifts keep the length of the register. -/
theorem length_iterate_shiftStep {reg : List K} (h : reg.length = taps.length) (n : ℕ) :
    ((shiftStep taps)^[n] reg).length = taps.length := by
  induction n with
  | zero => exact h
  | succ n ih =>
      rw [Function.iterate_succ_apply']
      exact length_shiftStep ih

/-- Several shifts multiply by a power of `X`, modulo the generator. -/
theorem mk_iterate_shiftStep {reg : List K} (h : reg.length = taps.length) (n : ℕ) :
    AdjoinRoot.mk (generator taps) (wordPoly ((shiftStep taps)^[n] reg))
      = AdjoinRoot.mk (generator taps) (X ^ n * wordPoly reg) := by
  induction n with
  | zero => rw [Function.iterate_zero_apply, pow_zero, one_mul]
  | succ n ih =>
      rw [Function.iterate_succ_apply', mk_shiftStep (length_iterate_shiftStep h n), map_mul, ih,
        ← map_mul, pow_succ', mul_assoc]

/-- Feeding a word keeps the length of the register. -/
theorem length_feed {reg word : List K} (hreg : reg.length = taps.length)
    (hword : word.length = taps.length) : (feed taps reg word).length = taps.length := by
  refine length_iterate_shiftStep ?_ _
  rw [length_addWords (hreg.trans hword.symm), hword]

/-- Feeding a word adds it and multiplies by the power of `X` of its width. -/
theorem mk_feed {reg word : List K} (hreg : reg.length = taps.length)
    (hword : word.length = taps.length) :
    AdjoinRoot.mk (generator taps) (wordPoly (feed taps reg word))
      = AdjoinRoot.mk (generator taps) (X ^ taps.length * (wordPoly reg + wordPoly word)) := by
  have hlen : reg.length = word.length := hreg.trans hword.symm
  rw [feed, mk_iterate_shiftStep, wordPoly_addWords hlen]
  rw [length_addWords hlen, hword]

/-- The register keeps its length over all words. -/
theorem length_register {words : List (List K)} (hwords : ∀ w ∈ words, w.length = taps.length)
    {reg : List K} (hreg : reg.length = taps.length) :
    (register taps reg words).length = taps.length := by
  induction words generalizing reg with
  | nil => exact hreg
  | cons w words ih =>
      obtain ⟨hw, hwords⟩ := List.forall_mem_cons.mp hwords
      exact ih hwords (length_feed hreg hw)

/-- **The run of a register.** Its contents are a remainder: of the words, behind which the
register leaves room for itself, and of its first contents in front of them. -/
theorem mk_register {words : List (List K)} (hwords : ∀ w ∈ words, w.length = taps.length)
    {reg : List K} (hreg : reg.length = taps.length) :
    AdjoinRoot.mk (generator taps) (wordPoly (register taps reg words))
      = AdjoinRoot.mk (generator taps)
        (wordPoly reg * X ^ words.flatten.length + wordPoly words.flatten * X ^ taps.length) := by
  induction words generalizing reg with
  | nil => simp [register]
  | cons w words ih =>
      obtain ⟨hw, hwords⟩ := List.forall_mem_cons.mp hwords
      have hrest := ih hwords (length_feed hreg hw)
      rw [register_cons, hrest, map_add, map_mul, mk_feed hreg hw, ← map_mul, ← map_add,
        List.flatten_cons, wordPoly_append, List.length_append, hw, pow_add]
      congr 1
      ring

/-- The generator is monic: the letter that falls out of the register has the factor one. -/
theorem monic_generator : (generator taps).Monic :=
  monic_X_pow_sub (degree_wordPoly_lt taps)

end Register

/-! ### Detection -/

section Detection

variable {K : Type*} [CommRing K] [Nontrivial K] {taps : List K}

/-- The degree of the generator is the length of the register. -/
theorem degree_generator : (generator taps).degree = taps.length := by
  have hlt : (wordPoly taps).degree < (X ^ taps.length : K[X]).degree := by
    rw [degree_X_pow]
    exact degree_wordPoly_lt taps
  rw [generator, degree_sub_eq_left_of_degree_lt hlt, degree_X_pow]

/-- `degree_generator` as a natural number. -/
theorem natDegree_generator : (generator taps).natDegree = taps.length :=
  natDegree_eq_of_degree_eq_some degree_generator

/-- The contents of a register are determined by their residue. -/
theorem eq_of_mk_eq {s t : List K} (hs : s.length = taps.length) (ht : t.length = taps.length)
    (h : AdjoinRoot.mk (generator taps) (wordPoly s)
      = AdjoinRoot.mk (generator taps) (wordPoly t)) : s = t := by
  refine wordPoly_inj (hs.trans ht.symm) ?_
  by_contra hne
  have hlt : (wordPoly s - wordPoly t).degree < (generator taps).degree := by
    rw [degree_generator]
    refine lt_of_le_of_lt (degree_sub_le _ _) (max_lt ?_ ?_)
    · exact hs ▸ degree_wordPoly_lt s
    · exact ht ▸ degree_wordPoly_lt t
  exact monic_generator.not_dvd_of_degree_lt (sub_ne_zero.mpr hne) hlt (AdjoinRoot.mk_eq_mk.mp h)

/-- **Linearity.** -/
theorem register_addWords {words words' : List (List K)} {reg reg' : List K}
    (hreg : reg.length = taps.length) (hreg' : reg'.length = taps.length)
    (hwords : ∀ w ∈ words, w.length = taps.length) (hwords' : ∀ w ∈ words', w.length = taps.length)
    (hlen : words.length = words'.length) :
    register taps (addWords reg reg') (List.zipWith addWords words words')
      = addWords (register taps reg words) (register taps reg' words') := by
  obtain ⟨hflat, hsame⟩ := flatten_addWords hwords hwords' hlen
  have hsum := width_addWords hwords hwords'
  have hregs : reg.length = reg'.length := hreg.trans hreg'.symm
  have hstart : (addWords reg reg').length = taps.length := by rw [length_addWords hregs, hreg']
  have hend : (register taps reg words).length = (register taps reg' words').length :=
    (length_register hwords hreg).trans (length_register hwords' hreg').symm
  refine eq_of_mk_eq (length_register hsum hstart) ?_ ?_
  · rw [length_addWords hend, length_register hwords' hreg']
  · rw [wordPoly_addWords hend, map_add, mk_register hsum hstart, mk_register hwords hreg,
      mk_register hwords' hreg', ← map_add, hflat, wordPoly_addWords hsame, wordPoly_addWords hregs,
      length_addWords hsame, hsame]
    congr 1
    ring

/-- **Errors.** The words and the contents they lead to are changed together: the register does
not notice it exactly when the generator divides the polynomial of the error. -/
theorem register_add_eq_iff {words errors : List (List K)} {reg e : List K}
    (hreg : reg.length = taps.length) (hwords : ∀ w ∈ words, w.length = taps.length)
    (herrors : ∀ w ∈ errors, w.length = taps.length) (hlen : words.length = errors.length)
    (he : e.length = taps.length) :
    register taps reg (List.zipWith addWords words errors) = addWords (register taps reg words) e ↔
      generator taps ∣ wordPoly errors.flatten * X ^ taps.length - wordPoly e := by
  obtain ⟨hflat, hsame⟩ := flatten_addWords hwords herrors hlen
  have hsum := width_addWords hwords herrors
  have hreglen := length_register hwords hreg
  have hresidue : AdjoinRoot.mk (generator taps)
      (wordPoly (register taps reg (List.zipWith addWords words errors)))
      = AdjoinRoot.mk (generator taps) (wordPoly (register taps reg words))
        + AdjoinRoot.mk (generator taps) (wordPoly errors.flatten * X ^ taps.length) := by
    rw [mk_register hsum hreg, mk_register hwords hreg, ← map_add, hflat, length_addWords hsame,
      wordPoly_addWords hsame, hsame]
    congr 1
    ring
  have hend : wordPoly (addWords (register taps reg words) e)
      = wordPoly (register taps reg words) + wordPoly e :=
    wordPoly_addWords (hreglen.trans he.symm)
  rw [← AdjoinRoot.mk_eq_mk]
  constructor
  · intro heq
    have hmk := congrArg (AdjoinRoot.mk (generator taps) ∘ wordPoly) heq
    rw [Function.comp_apply, Function.comp_apply, hresidue, hend, map_add] at hmk
    exact add_left_cancel hmk
  · intro hmk
    refine eq_of_mk_eq (length_register hsum hreg) ?_ ?_
    · rw [length_addWords (hreglen.trans he.symm), he]
    · rw [hresidue, hend, map_add, hmk]

end Detection

end PppAmb
