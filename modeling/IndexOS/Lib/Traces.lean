import Mathlib.Data.List.Basic

/-!
# Runs of a machine

A machine is a function that gives the state after an event; a run is a list of events.

* `run`, `Always`, `EachStep` — the last state, a property of every state and a property of every
  step;
* `run_of_invariant`, `Always.of_invariant`, `EachStep.of_invariant` — what an invariant implies
  holds all along a run whose steps keep it;
* `always_iff_eachStep`, `always_and_eachStep_iff` — a condition that is exact for each step is
  exact for runs.
-/

set_option autoImplicit false

namespace IndexOS.Traces

variable {σ ε : Type} (step : σ → ε → σ)

def run (s : σ) : List ε → σ
  | [] => s
  | e :: rest => run (step s e) rest

/-- The property holds in every state of the run. -/
def Always (P : σ → Prop) (s : σ) : List ε → Prop
  | [] => P s
  | e :: rest => P s ∧ Always P (step s e) rest

/-- The property holds of every step of the run. -/
def EachStep (P : σ → ε → Prop) (s : σ) : List ε → Prop
  | [] => True
  | e :: rest => P s e ∧ EachStep P (step s e) rest

instance instDecidableEachStep (P : σ → ε → Prop) [∀ s e, Decidable (P s e)] :
    ∀ s es, Decidable (EachStep step P s es)
  | _, [] => .isTrue trivial
  | s, e :: rest =>
    have := instDecidableEachStep P (step s e) rest
    inferInstanceAs (Decidable (_ ∧ _))

variable {step} {I P : σ → Prop} {Q R : σ → ε → Prop} {s : σ}

theorem run_append (s : σ) (es es' : List ε) :
    run step s (es ++ es') = run step (run step s es) es' := by
  induction es generalizing s with
  | nil => rfl
  | cons e rest ih => exact ih _

variable {es : List ε}

theorem Always.head (h : Always step P s es) : P s := by
  cases es with
  | nil => exact h
  | cons e rest => exact h.1

theorem Always.last (h : Always step P s es) : P (run step s es) := by
  induction es generalizing s with
  | nil => exact h
  | cons e rest ih => exact ih h.2

theorem Always.take (h : Always step P s es) (n : Nat) : P (run step s (es.take n)) := by
  induction es generalizing s n with
  | nil => simpa [run, Always] using h
  | cons e rest ih =>
    cases n with
    | zero => exact h.1
    | succ n => exact ih h.2 n

theorem Always.of_invariant (hP : ∀ s, I s → P s) (hstep : ∀ s e, I s → Q s e → I (step s e))
    (hs : I s) (hes : EachStep step Q s es) : Always step P s es := by
  induction es generalizing s with
  | nil => exact hP s hs
  | cons e rest ih => exact ⟨hP s hs, ih (hstep s e hs hes.1) hes.2⟩

theorem run_of_invariant (hstep : ∀ s e, I s → Q s e → I (step s e)) (hs : I s)
    (hes : EachStep step Q s es) : I (run step s es) :=
  (Always.of_invariant (fun _ h => h) hstep hs hes).last

theorem EachStep.of_invariant (hR : ∀ s e, I s → Q s e → R s e)
    (hstep : ∀ s e, I s → Q s e → I (step s e))
    (hs : I s) (hes : EachStep step Q s es) : EachStep step R s es := by
  induction es generalizing s with
  | nil => trivial
  | cons e rest ih => exact ⟨hR s e hs hes.1, ih (hstep s e hs hes.1) hes.2⟩

/-- Where a step that breaks the condition also breaks the property, the condition is exact.  `A` is
what is assumed of every step. -/
theorem always_iff_eachStep {A : σ → ε → Prop} (hP : ∀ s, I s → P s)
    (hstep : ∀ s e, I s → A s e → Q s e → I (step s e))
    (hexact : ∀ s e, I s → A s e → P (step s e) → Q s e) (hs : I s)
    (hA : EachStep step A s es) : Always step P s es ↔ EachStep step Q s es := by
  induction es generalizing s with
  | nil => exact ⟨fun _ => trivial, fun _ => hP s hs⟩
  | cons e rest ih =>
    constructor
    · rintro ⟨-, hrest⟩
      have hQ : Q s e := hexact s e hs hA.1 hrest.head
      exact ⟨hQ, (ih (hstep s e hs hA.1 hQ) hA.2).1 hrest⟩
    · rintro ⟨hQ, hrest⟩
      exact ⟨hP s hs, (ih (hstep s e hs hA.1 hQ) hA.2).2 hrest⟩

/-- The same for a property of the states together with one of the steps. -/
theorem always_and_eachStep_iff (hP : ∀ s, I s → P s) (hR : ∀ s e, I s → Q s e → R s e)
    (hstep : ∀ s e, I s → Q s e → I (step s e))
    (hexact : ∀ s e, I s → P (step s e) → R s e → Q s e) (hs : I s) :
    (Always step P s es ∧ EachStep step R s es) ↔ EachStep step Q s es := by
  constructor
  · intro h
    induction es generalizing s with
    | nil => trivial
    | cons e rest ih =>
      obtain ⟨⟨-, halways⟩, hfirst, heach⟩ := h
      have hQ : Q s e := hexact s e hs halways.head hfirst
      exact ⟨hQ, ih (hstep s e hs hQ) ⟨halways, heach⟩⟩
  · exact fun h => ⟨Always.of_invariant hP hstep hs h, EachStep.of_invariant hR hstep hs h⟩

theorem EachStep.trivial (es : List ε) : EachStep step (fun _ _ => True) s es := by
  induction es generalizing s with
  | nil => exact True.intro
  | cons e rest ih => exact ⟨True.intro, ih⟩

theorem EachStep.and (h : EachStep step Q s es) (h' : EachStep step R s es) :
    EachStep step (fun s e => Q s e ∧ R s e) s es := by
  induction es generalizing s with
  | nil => trivial
  | cons e rest ih => exact ⟨⟨h.1, h'.1⟩, ih h.2 h'.2⟩

end IndexOS.Traces
