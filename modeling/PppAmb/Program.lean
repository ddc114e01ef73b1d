import Mathlib.Data.Nat.Basic
import PppAmb.Run

/-!
# Programs That Call the Outside

A program calls functions that it does not have itself, and goes on with what they reply. What
it does is given by its runs: the calls that are made with their replies, in order. Nothing is
assumed about the replies.

In surroundings where events occur by themselves, between any two calls, a record also has the
events, and the surroundings say which replies and which events are possible after a record.

## Main results

* `runs_bind`: a run of two programs in sequence.
* `Program.Within.bind`: the rule for how much the calls cost.
* `Program.Safe.bind`, `Program.Safe.runs`: the rule for monitors, which follow the calls, and
  their soundness.
* `Surroundings.Reaches.runs`: whatever events occur, the calls of a program are those of a run.
-/

namespace PppAmb

/-- A program that calls functions `c : C`, which reply an `R c`. -/
inductive Program (C : Type) (R : C → Type) (α : Type) : Type
  | done (x : α)
  | call (c : C) (next : R c → Program C R α)

/-- A call with its reply. -/
abbrev Answered (C : Type) (R : C → Type) :=
  (c : C) × R c

section Programs

variable {C : Type} {R : C → Type} {α β γ : Type}

/-- What a program goes on with when it returns. -/
def Program.bind : Program C R α → (α → Program C R β) → Program C R β
  | .done x, f => f x
  | .call c next, f => .call c fun r => (next r).bind f

instance : Monad (Program C R) where
  pure := .done
  bind := Program.bind

/-- A single call. -/
def Program.ask (c : C) : Program C R (R c) :=
  .call c .done

/-- A program that returns goes on at once. -/
@[simp] theorem done_bind (x : α) (f : α → Program C R β) : (Program.done x >>= f) = f x :=
  rfl

/-- What comes behind a program comes behind all its calls. -/
@[simp] theorem call_bind (c : C) (next : R c → Program C R α) (f : α → Program C R β) :
    (Program.call c next >>= f) = .call c fun r => next r >>= f :=
  rfl

/-- A single call hands over its reply. -/
@[simp] theorem ask_bind (c : C) (f : R c → Program C R β) : (Program.ask c >>= f) = .call c f :=
  rfl

/-! ### Runs -/

/-- `p.Runs log q`: after the calls of the record, what is left to do is `q`. -/
inductive Program.Runs : Program C R α → List (Answered C R) → Program C R α → Prop
  | refl (p : Program C R α) : Runs p [] p
  | call {c : C} {next : R c → Program C R α} {r : R c} {log : List (Answered C R)}
      {q : Program C R α} (h : Runs (next r) log q) : Runs (.call c next) (⟨c, r⟩ :: log) q

/-- The program returns after the calls of the record. -/
def Program.Returns (p : Program C R α) (log : List (Answered C R)) (x : α) : Prop :=
  p.Runs log (.done x)

/-- A program that has returned makes no call. -/
theorem runs_done {x : α} {log : List (Answered C R)} {q : Program C R α} :
    (Program.done x).Runs log q ↔ log = [] ∧ q = .done x := by
  constructor
  · intro h
    cases h
    exact ⟨rfl, rfl⟩
  · rintro ⟨rfl, rfl⟩
    exact .refl _

/-- A call has not been made yet, or has its reply first in the record. -/
theorem runs_call {c : C} {next : R c → Program C R α} {log : List (Answered C R)}
    {q : Program C R α} : (Program.call c next).Runs log q ↔
      (log = [] ∧ q = .call c next) ∨ ∃ r log', log = ⟨c, r⟩ :: log' ∧ (next r).Runs log' q := by
  constructor
  · intro h
    cases h with
    | refl => exact .inl ⟨rfl, rfl⟩
    | call h => exact .inr ⟨_, _, rfl, h⟩
  · rintro (⟨rfl, rfl⟩ | ⟨r, log', rfl, h⟩)
    · exact .refl _
    · exact .call h

/-- A program that has returned does so with its result. -/
theorem returns_done {x y : α} {log : List (Answered C R)} :
    (Program.done x : Program C R α).Returns log y ↔ log = [] ∧ y = x := by
  rw [Program.Returns, runs_done, Program.done.injEq]

/-- A program returns through the reply to its first call. -/
theorem returns_call {c : C} {next : R c → Program C R α} {log : List (Answered C R)} {x : α} :
    (Program.call c next).Returns log x ↔
      ∃ r log', log = ⟨c, r⟩ :: log' ∧ (next r).Returns log' x := by
  rw [Program.Returns, runs_call]
  simp [Program.Returns]

/-- `returns_call` for a call whose reply is handed over. -/
theorem returns_ask_bind {c : C} {f : R c → Program C R α} {log : List (Answered C R)} {x : α} :
    (Program.ask c >>= f).Returns log x ↔ ∃ r log', log = ⟨c, r⟩ :: log' ∧ (f r).Returns log' x :=
  returns_call

/-- **Runs of two programs in sequence**: the first has not returned yet, or it has. -/
theorem runs_bind {p : Program C R α} {f : α → Program C R β} {log : List (Answered C R)}
    {q : Program C R β} : (p >>= f).Runs log q ↔
      (∃ p', p.Runs log p' ∧ q = (p' >>= f)) ∨
        ∃ x log₁ log₂, log = log₁ ++ log₂ ∧ p.Returns log₁ x ∧ (f x).Runs log₂ q := by
  induction p generalizing log with
  | done x =>
      rw [done_bind]
      constructor
      · exact fun h => .inr ⟨x, [], log, rfl, .refl _, h⟩
      · rintro (⟨p', hp, rfl⟩ | ⟨y, log₁, log₂, rfl, hp, h⟩)
        · obtain ⟨rfl, rfl⟩ := runs_done.mp hp
          exact .refl _
        · obtain ⟨rfl, rfl⟩ := returns_done.mp hp
          exact h
  | call c next ih =>
      rw [call_bind, runs_call]
      constructor
      · rintro (⟨rfl, rfl⟩ | ⟨r, log', rfl, h⟩)
        · exact .inl ⟨_, .refl _, rfl⟩
        · rcases (ih r).mp h with ⟨p', hp, rfl⟩ | ⟨x, log₁, log₂, rfl, hp, h⟩
          · exact .inl ⟨p', .call hp, rfl⟩
          · exact .inr ⟨x, ⟨c, r⟩ :: log₁, log₂, rfl, .call hp, h⟩
      · rintro (⟨p', hp, rfl⟩ | ⟨x, log₁, log₂, rfl, hp, h⟩)
        · rcases runs_call.mp hp with ⟨rfl, rfl⟩ | ⟨r, log', rfl, hrest⟩
          · exact .inl ⟨rfl, rfl⟩
          · exact .inr ⟨r, log', rfl, (ih r).mpr (.inl ⟨p', hrest, rfl⟩)⟩
        · obtain ⟨r, log', rfl, hrest⟩ := returns_call.mp hp
          exact .inr ⟨r, log' ++ log₂, rfl, (ih r).mpr (.inr ⟨x, log', log₂, rfl, hrest, h⟩)⟩

/-- Two programs in sequence return one after the other. -/
theorem returns_bind {p : Program C R α} {f : α → Program C R β} {log : List (Answered C R)}
    {y : β} : (p >>= f).Returns log y ↔
      ∃ x log₁ log₂, log = log₁ ++ log₂ ∧ p.Returns log₁ x ∧ (f x).Returns log₂ y := by
  rw [Program.Returns, runs_bind]
  constructor
  · rintro (⟨p', hp, hq⟩ | h)
    · cases p' with
      | done x =>
          rw [done_bind] at hq
          exact ⟨x, log, [], (List.append_nil _).symm, hp, by rw [← hq]; exact .refl _⟩
      | call c next => exact absurd hq (by simp)
    · exact h
  · exact .inr

/-- The next call extends the record at its end. -/
theorem Program.Runs.snoc {p : Program C R α} {log : List (Answered C R)} {c : C}
    {next : R c → Program C R α} (h : p.Runs log (.call c next)) (r : R c) :
    p.Runs (log ++ [⟨c, r⟩]) (next r) := by
  generalize hq : Program.call c next = q at h
  induction h with
  | refl p =>
      subst hq
      exact .call (.refl _)
  | call _ ih => exact .call (ih hq)

/-- A run may be stopped between any two of its calls. -/
theorem runs_append {p q : Program C R α} {log log' : List (Answered C R)} :
    p.Runs (log ++ log') q ↔ ∃ p', p.Runs log p' ∧ p'.Runs log' q := by
  induction log generalizing p with
  | nil =>
      constructor
      · exact fun h => ⟨p, .refl p, h⟩
      · rintro ⟨p', hp, h⟩
        cases hp
        exact h
  | cons a log ih =>
      constructor
      · intro h
        cases h with
        | call h =>
            obtain ⟨p', hp, hq⟩ := ih.mp h
            exact ⟨p', .call hp, hq⟩
      · rintro ⟨p', hp, hq⟩
        cases hp with
        | call hp => exact .call (ih.mpr ⟨p', hp, hq⟩)

/-! ### What the calls cost -/

/-- The cost of the calls of a record. -/
def cost (w : C → ℕ) : List (Answered C R) → ℕ
  | [] => 0
  | a :: log => w a.1 + cost w log

/-- The costs of two records add up. -/
theorem cost_append (w : C → ℕ) (log log' : List (Answered C R)) :
    cost w (log ++ log') = cost w log + cost w log' := by
  induction log with
  | nil => exact (Nat.zero_add _).symm
  | cons a log ih => rw [List.cons_append, cost, cost, ih, Nat.add_assoc]

/-- No run of the program costs more than `n`. -/
def Program.Within (w : C → ℕ) (p : Program C R α) (n : ℕ) : Prop :=
  ∀ log q, p.Runs log q → cost w log ≤ n

variable {w : C → ℕ}

/-- A bound may be raised. -/
theorem Program.Within.mono {p : Program C R α} {m n : ℕ} (h : p.Within w m) (hmn : m ≤ n) :
    p.Within w n :=
  fun log q hrun => Nat.le_trans (h log q hrun) hmn

/-- A program that has returned costs nothing more. -/
theorem within_done (x : α) (n : ℕ) : (Program.done x : Program C R α).Within w n := by
  intro log q h
  obtain ⟨rfl, -⟩ := runs_done.mp h
  exact Nat.zero_le _

/-- The cost of a call comes on top of that of what follows. -/
theorem within_call {c : C} {next : R c → Program C R α} {n : ℕ} (h : ∀ r, (next r).Within w n) :
    (Program.call c next).Within w (w c + n) := by
  intro log q hrun
  rcases runs_call.mp hrun with ⟨rfl, -⟩ | ⟨r, log', rfl, hrest⟩
  · exact Nat.zero_le _
  · rw [cost]
    exact Nat.add_le_add_left (h r log' q hrest) _

/-- A single call costs what it costs. -/
theorem within_ask (c : C) (n : ℕ) : (Program.ask c : Program C R (R c)).Within w (w c + n) :=
  within_call fun r => within_done r n

/-- `within_call` for a call whose reply is handed over. -/
theorem within_ask_bind {c : C} {f : R c → Program C R α} {n : ℕ} (h : ∀ r, (f r).Within w n) :
    (Program.ask c >>= f).Within w (w c + n) :=
  within_call h

/-- **Costs add up** over two programs in sequence. -/
theorem Program.Within.bind {p : Program C R α} {f : α → Program C R β} {m n : ℕ}
    (hp : p.Within w m) (hf : ∀ x, (f x).Within w n) : (p >>= f).Within w (m + n) := by
  intro log q h
  rcases runs_bind.mp h with ⟨p', hrun, -⟩ | ⟨x, log₁, log₂, rfl, hrun, hrest⟩
  · exact Nat.le_trans (hp log p' hrun) (Nat.le_add_right _ _)
  · rw [cost_append]
    exact Nat.add_le_add (hp log₁ _ hrun) (hf x log₂ q hrest)

/-! ### Monitors -/

/-- A monitor follows the calls and says which call is allowed next. -/
structure Monitor (C : Type) (R : C → Type) (S : Type) where
  allowed : S → C → Prop
  next : S → Answered C R → S

section Monitors

variable {S : Type} {M : Monitor C R S}

/-- From a state of the monitor the program makes allowed calls only, and it returns with a
result and a state that are as given. -/
def Program.Safe (M : Monitor C R S) : Program C R α → S → (α → S → Prop) → Prop
  | .done x, s, Q => Q x s
  | .call c next, s, Q => M.allowed s c ∧ ∀ r, (next r).Safe M (M.next s ⟨c, r⟩) Q

/-- The rule of consequence. -/
theorem Program.Safe.mono {p : Program C R α} {s : S} {P Q : α → S → Prop} (h : p.Safe M s P)
    (hPQ : ∀ x s', P x s' → Q x s') : p.Safe M s Q := by
  induction p generalizing s with
  | done x => exact hPQ x s h
  | call c next ih => exact ⟨h.1, fun r => ih r (h.2 r)⟩

/-- **The rule for two programs in sequence.** -/
theorem Program.Safe.bind {p : Program C R α} {f : α → Program C R β} {s : S}
    {P : α → S → Prop} {Q : β → S → Prop} (hp : p.Safe M s P)
    (hf : ∀ x s', P x s' → (f x).Safe M s' Q) : (p >>= f).Safe M s Q := by
  induction p generalizing s with
  | done x => exact hf x s hp
  | call c next ih => exact ⟨hp.1, fun r => ih r (hp.2 r)⟩

/-- A single call is safe if the monitor allows it. -/
theorem safe_ask {c : C} {s : S} {Q : R c → S → Prop} (hallowed : M.allowed s c)
    (hQ : ∀ r, Q r (M.next s ⟨c, r⟩)) : (Program.ask c).Safe M s Q :=
  ⟨hallowed, hQ⟩

/-- A call may be made if the monitor allows it and what follows is safe for every reply. -/
theorem safe_ask_bind {c : C} {f : R c → Program C R α} {s : S} {Q : α → S → Prop}
    (hallowed : M.allowed s c) (hf : ∀ r, (f r).Safe M (M.next s ⟨c, r⟩) Q) :
    (Program.ask c >>= f).Safe M s Q :=
  ⟨hallowed, hf⟩

/-- **Soundness of monitors**, for what is left to do after a run. -/
theorem Program.Safe.runs {p q : Program C R α} {s : S} {Q : α → S → Prop}
    {log : List (Answered C R)} (hp : p.Safe M s Q) (h : p.Runs log q) :
    q.Safe M (log.foldl M.next s) Q := by
  induction h generalizing s with
  | refl p => exact hp
  | call _ ih => exact ih (hp.2 _)

end Monitors

/-! ### Given replies -/

/-- The run of a program with the given replies, up to a call that has none. -/
def Program.runWith (reply : (c : C) → Option (R c)) :
    Program C R α → List (Answered C R) × Program C R α
  | .done x => ([], .done x)
  | .call c next =>
      match reply c with
      | none => ([], .call c next)
      | some r => (⟨c, r⟩ :: ((next r).runWith reply).1, ((next r).runWith reply).2)

/-- With given replies a program does have a run. -/
theorem runs_runWith (reply : (c : C) → Option (R c)) (p : Program C R α) :
    p.Runs (p.runWith reply).1 (p.runWith reply).2 := by
  induction p with
  | done x => exact .refl _
  | call c next ih =>
      rw [Program.runWith]
      split
      · exact .refl _
      · exact .call (ih _)

end Programs

/-! ### Surroundings -/

/-- What is recorded of a program among events. -/
inductive Entry (C : Type) (R : C → Type) (E : Type) : Type
  | call (a : Answered C R)
  | event (e : E)

section Surroundings

variable {C : Type} {R : C → Type} {E α : Type}

/-- An entry, if it is a call. -/
def Entry.answered : Entry C R E → Option (Answered C R)
  | .call a => some a
  | .event _ => none

/-- The calls of a record. -/
def calls (record : List (Entry C R E)) : List (Answered C R) :=
  record.filterMap Entry.answered

/-- The calls of two records are made one after the other. -/
@[simp] theorem calls_append (record record' : List (Entry C R E)) :
    calls (record ++ record') = calls record ++ calls record' :=
  List.filterMap_append

/-- The record of one call. -/
@[simp] theorem calls_call (a : Answered C R) : calls [(.call a : Entry C R E)] = [a] :=
  rfl

/-- An event is no call. -/
@[simp] theorem calls_event (e : E) : calls [(.event e : Entry C R E)] = [] :=
  rfl

/-- Which replies and which events are possible after a record. -/
structure Surroundings (C : Type) (R : C → Type) (E : Type) where
  replies : List (Entry C R E) → Answered C R → Prop
  occurs : List (Entry C R E) → E → Prop

/-- After the record, what is left to do is the program. -/
inductive Surroundings.Reaches (O : Surroundings C R E) (main : Program C R α) :
    List (Entry C R E) → Program C R α → Prop
  | start : Reaches O main [] main
  | call {record : List (Entry C R E)} {c : C} {next : R c → Program C R α} {r : R c}
      (h : Reaches O main record (.call c next)) (hreply : O.replies record ⟨c, r⟩) :
      Reaches O main (record ++ [.call ⟨c, r⟩]) (next r)
  | event {record : List (Entry C R E)} {p : Program C R α} {e : E}
      (h : Reaches O main record p) (hoccurs : O.occurs record e) :
      Reaches O main (record ++ [.event e]) p

variable {O : Surroundings C R E} {main p : Program C R α} {record : List (Entry C R E)}

/-- **Whatever events occur**, the calls of a program are those of a run. -/
theorem Surroundings.Reaches.runs (h : O.Reaches main record p) :
    main.Runs (calls record) p := by
  induction h with
  | start => exact .refl _
  | call _ _ ih =>
      rw [calls_append, calls_call]
      exact ih.snoc _
  | event _ _ ih => rwa [calls_append, calls_event, List.append_nil]

/-- What may come next. -/
def Surroundings.Allows (O : Surroundings C R E) (before : List (Entry C R E)) :
    Entry C R E → Prop
  | .call a => O.replies before a
  | .event e => O.occurs before e

/-- What has come was possible after what stands before it. -/
theorem Surroundings.Reaches.allowed (h : O.Reaches main record p) :
    ∀ before x after, record = before ++ x :: after → O.Allows before x := by
  induction h with
  | start =>
      intro before x after heq
      exact absurd heq (by simp)
  | call _ hreply ih => exact forall_split_snoc.mpr ⟨ih, hreply⟩
  | event _ hoccurs ih => exact forall_split_snoc.mpr ⟨ih, hoccurs⟩

/-- A call of the record was what the program did next. -/
theorem Surroundings.Reaches.before (h : O.Reaches main record p)
    {before after : List (Entry C R E)} {a : Answered C R}
    (hrecord : record = before ++ .call a :: after) :
    ∃ next, O.Reaches main before (.call a.1 next) := by
  have hall : ∀ before x after, record = before ++ x :: after → ∀ a, x = .call a →
      ∃ next : R a.1 → Program C R α, O.Reaches main before (.call a.1 next) := by
    clear hrecord before after a
    induction h with
    | start =>
        intro before x after heq
        exact absurd heq (by simp)
    | @call record c next r h _ ih =>
        refine forall_split_snoc.mpr ⟨ih, ?_⟩
        rintro a heq
        obtain rfl : ⟨c, r⟩ = a := by simpa using heq
        exact ⟨next, h⟩
    | event _ _ ih =>
        refine forall_split_snoc.mpr ⟨ih, ?_⟩
        rintro a heq
        exact absurd heq (by simp)
  exact hall before _ after hrecord a rfl

/-- A run goes on while its replies are possible. -/
theorem Surroundings.Reaches.extend (h : O.Reaches main record p) {log : List (Answered C R)}
    {q : Program C R α} (hrun : p.Runs log q)
    (hreplies : ∀ before a after, log = before ++ a :: after →
      O.replies (record ++ before.map .call) a) :
    O.Reaches main (record ++ log.map .call) q := by
  induction hrun generalizing record with
  | refl p => simpa using h
  | @call c next r log q _ ih =>
      have hfirst : O.replies record ⟨c, r⟩ := by
        simpa using hreplies [] ⟨c, r⟩ log rfl
      have hlater := ih (h.call hfirst) fun before a after heq => by
        have := hreplies (⟨c, r⟩ :: before) a after (by rw [heq, List.cons_append])
        simpa using this
      simpa using hlater

end Surroundings

end PppAmb
