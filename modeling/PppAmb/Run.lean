import Mathlib.Data.List.Basic

/-!
# Runs of a Deterministic Machine

A machine is a step function that consumes one input; a run consumes a list of inputs.
`Along step P s as` says that `P` holds of the state before each step together with its
input. The rules below carry an invariant from one step to whole runs.

## Main results

* `Along.of_invariant`: if every step that meets a condition keeps an invariant and
  establishes a property, then in a run whose steps all meet the condition the property
  holds at every step.
* `foldl_invariant`: an unconditional invariant holds at the end of every run.
* `forall_split_snoc`: a property of every element of a record and of what stands before
  it, when the record grows at its end.
* `foldlM_simulation`: the simulation rule for a machine that may stop.
-/

namespace PppAmb

variable {S A : Type*}

/-- `P` holds at each step of the run from `s` over the inputs. -/
def Along (step : S → A → S) (P : S → A → Prop) : S → List A → Prop
  | _, [] => True
  | s, a :: as => P s a ∧ Along step P (step s a) as

/-- **The conditional invariant rule.** -/
theorem Along.of_invariant {step : S → A → S} {I : S → Prop} {C P : S → A → Prop}
    (hstep : ∀ s a, I s → C s a → P s a ∧ I (step s a)) :
    ∀ {as : List A} {s : S}, I s → Along step C s as → Along step P s as := by
  intro as
  induction as with
  | nil =>
      intro s _ _
      trivial
  | cons a as ih =>
      rintro s hI ⟨hC, hrest⟩
      obtain ⟨hP, hI'⟩ := hstep s a hI hC
      exact ⟨hP, ih hI' hrest⟩

/-- The same rule without a condition. -/
theorem Along.of_step {step : S → A → S} {I : S → Prop} {P : S → A → Prop}
    (hstep : ∀ s a, I s → P s a ∧ I (step s a)) (as : List A) {s : S} (hI : I s) :
    Along step P s as := by
  induction as generalizing s with
  | nil => trivial
  | cons a as ih => exact ⟨(hstep s a hI).1, ih (hstep s a hI).2⟩

/-- **The invariant rule.** -/
theorem foldl_invariant {step : S → A → S} {I : S → Prop} (hstep : ∀ s a, I s → I (step s a)) :
    ∀ (as : List A) {s : S}, I s → I (as.foldl step s) := by
  intro as
  induction as with
  | nil => exact id
  | cons a as ih => exact fun hI => ih (hstep _ a hI)

/-- A property of every element and what stands before it, for a list that grows at its
end. -/
theorem forall_split_snoc {P : List A → A → Prop} {l : List A} {x : A} :
    (∀ before y after, l ++ [x] = before ++ y :: after → P before y) ↔
      (∀ before y after, l = before ++ y :: after → P before y) ∧ P l x := by
  constructor
  · intro h
    refine ⟨fun before y after heq => ?_, h l x [] rfl⟩
    exact h before y (after ++ [x]) (by rw [heq]; simp)
  · rintro ⟨h, hlast⟩ before y after heq
    rcases List.eq_nil_or_concat' after with rfl | ⟨after, z, rfl⟩
    · obtain ⟨rfl, hy⟩ := List.append_inj' heq rfl
      obtain rfl : x = y := by simpa using hy
      exact hlast
    · rw [← List.cons_append, ← List.append_assoc] at heq
      obtain ⟨rfl, -⟩ := List.append_inj' heq rfl
      exact h before y after rfl

/-! ### Machines that may stop -/

variable {B : Type*}

/-- **The simulation rule.** A second machine is given by the inputs of its runs: `R s bs` says
that its run over `bs` matches the state `s`. If every step of the first machine is matched by
one more input, labelled as the step is, then so is every run that does not stop. -/
theorem foldlM_simulation {step : S → A → Option S} {L : A → B → Prop} {R : S → List B → Prop}
    (hstep : ∀ s bs a s', R s bs → step s a = some s' → ∃ b, L a b ∧ R s' (bs ++ [b])) :
    ∀ {as : List A} {s s' : S} {bs : List B}, R s bs → as.foldlM step s = some s' →
      ∃ bs', List.Forall₂ L as bs' ∧ R s' (bs ++ bs') := by
  intro as
  induction as with
  | nil =>
      intro s s' bs hR hrun
      obtain rfl : s = s' := Option.some.inj hrun
      exact ⟨[], .nil, by rwa [List.append_nil]⟩
  | cons a as ih =>
      intro s s' bs hR hrun
      rw [List.foldlM_cons, Option.bind_eq_bind, Option.bind_eq_some_iff] at hrun
      obtain ⟨mid, hfirst, hrest⟩ := hrun
      obtain ⟨b, hlabel, hmid⟩ := hstep s bs a mid hR hfirst
      obtain ⟨bs', hlabels, hend⟩ := ih hmid hrest
      refine ⟨b :: bs', .cons hlabel hlabels, ?_⟩
      rwa [List.append_assoc, List.singleton_append] at hend

end PppAmb
