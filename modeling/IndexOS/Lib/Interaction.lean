import Mathlib.Logic.Basic

/-!
# Programs that talk to their surroundings

A program is a tree: it has returned, or it issues a command and goes on with the answer.  What
the commands do is said separately, by a *handler* that turns a command and a state into an answer
and a new state, or into a reason to stop.  The same program can so be run against several
surroundings — the real one, a simpler one, one that answers as an adversary would — and what is
known about one of them carries over to the others:

* `Prog` with its monad structure;
* `Prog.run` — the run of a program under a handler;
* `Prog.Returns` — the run comes to its end, with a value and in a state that satisfy `Q`;
* `Prog.wp` — what has to hold before a program so that `Q` holds after it, for commands that are
  only known by what they promise (`spec`);
* `Prog.wp_sound` — a handler that keeps the promises makes every `wp` true of its runs;
* `Prog.run_sim` — if every command is simulated, every program is.
-/

set_option autoImplicit false

namespace IndexOS.Interaction

/-- A program over the commands `C`, whose answers have the types `A`. -/
inductive Prog (C : Type) (A : C → Type) (α : Type) : Type
  | ret (a : α)
  | ask (c : C) (k : A c → Prog C A α)

/-- How a run ends: with a value and a state, or early, for a reason. -/
inductive Result (ε σ α : Type) : Type
  | done (a : α) (s : σ)
  | stop (e : ε)

variable {C : Type} {A : C → Type} {ε σ τ α β : Type}

namespace Prog

def bind : Prog C A α → (α → Prog C A β) → Prog C A β
  | .ret a, f => f a
  | .ask c k, f => .ask c fun x => (k x).bind f

instance : Monad (Prog C A) where
  pure := .ret
  bind := .bind

/-- Issue one command and return its answer. -/
def command (c : C) : Prog C A (A c) := .ask c .ret

/-- What a command does to a state. -/
abbrev Handler (C : Type) (A : C → Type) (ε σ : Type) := (c : C) → σ → Result ε σ (A c)

/-- Run a program. -/
def run (h : Handler C A ε σ) : Prog C A α → σ → Result ε σ α
  | .ret a, s => .done a s
  | .ask c k, s =>
    match h c s with
    | .done x s' => (k x).run h s'
    | .stop e => .stop e

/-- What the commands promise: a predicate transformer for each. -/
abbrev Spec (C : Type) (A : C → Type) (σ : Type) := (c : C) → σ → (A c → σ → Prop) → Prop

/-- `Q` holds whenever the program returns, if the commands keep their promises. -/
def wp (spec : Spec C A σ) : Prog C A α → σ → (α → σ → Prop) → Prop
  | .ret a, s, Q => Q a s
  | .ask c k, s, Q => spec c s fun x s' => (k x).wp spec s' Q

/-- A specification is monotone if a weaker postcondition has a weaker precondition. -/
def Spec.Monotone (spec : Spec C A σ) : Prop :=
  ∀ (c : C) (s : σ) (Q Q' : A c → σ → Prop), (∀ x t, Q x t → Q' x t) → spec c s Q → spec c s Q'

variable {spec : Spec C A σ}

theorem wp_bind (p : Prog C A α) (f : α → Prog C A β) (s : σ) (Q : β → σ → Prop) :
    (p >>= f).wp spec s Q ↔ p.wp spec s fun a t => (f a).wp spec t Q := by
  change (p.bind f).wp spec s Q ↔ _
  induction p generalizing s with
  | ret a => rfl
  | ask c k ih =>
    rw [bind, wp, wp]
    simp only [ih]

variable {a : α} {Q : β → σ → Prop} {P : α → σ → Prop} {s : σ} {f : α → Prog C A β} {p : Prog C A α}

theorem wp_mono (hm : Spec.Monotone spec) {Q Q' : α → σ → Prop} (hQ : ∀ a t, Q a t → Q' a t)
    (h : p.wp spec s Q) : p.wp spec s Q' := by
  induction p generalizing s with
  | ret a => exact hQ a s h
  | ask c k ih =>
    exact hm c s _ _ (fun x t hx => ih x hx) h

/-- Sequencing: what the first part guarantees is what the second part may use. -/
theorem wp_bind_of (hm : Spec.Monotone spec) (hp : p.wp spec s P)
    (hf : ∀ a t, P a t → (f a).wp spec t Q) : (p >>= f).wp spec s Q :=
  (wp_bind p f s Q).2 (wp_mono hm hf hp)

variable {h : Handler C A ε σ}

@[simp] theorem run_pure (a : α) (s : σ) : (pure a : Prog C A α).run h s = .done a s := rfl

@[simp] theorem run_command (c : C) (s : σ) : (command c : Prog C A (A c)).run h s = h c s := by
  rw [command, run]
  cases h c s <;> rfl

theorem run_bind (p : Prog C A α) (f : α → Prog C A β) (s : σ) :
    (p >>= f).run h s =
      match p.run h s with
      | .done a t => (f a).run h t
      | .stop e => .stop e := by
  change (p.bind f).run h s = _
  induction p generalizing s with
  | ret a => rfl
  | ask c k ih =>
    rw [bind, run, run]
    cases h c s with
    | done x t => exact ih x t
    | stop e => rfl

theorem run_bind_done {s t : σ} (hp : p.run h s = .done a t) :
    (p >>= f).run h s = (f a).run h t := by
  rw [run_bind, hp]

theorem run_bind_stop {e : ε} (hp : p.run h s = .stop e) : (p >>= f).run h s = .stop e := by
  rw [run_bind, hp]

/-- The program returns, with a value and in a state that satisfy `Q`. -/
def Returns (h : Handler C A ε σ) (p : Prog C A α) (s : σ) (Q : α → σ → Prop) : Prop :=
  ∃ a t, p.run h s = .done a t ∧ Q a t

theorem returns_pure {Q : α → σ → Prop} (hQ : Q a s) : Returns h (pure a : Prog C A α) s Q :=
  ⟨a, s, rfl, hQ⟩

theorem returns_bind (hp : Returns h p s P) (hf : ∀ a t, P a t → Returns h (f a) t Q) :
    Returns h (p >>= f) s Q := by
  obtain ⟨a, t, hrun, hP⟩ := hp
  obtain ⟨b, u, hrun', hQ⟩ := hf a t hP
  exact ⟨b, u, by rw [run_bind_done hrun, hrun'], hQ⟩

/-- One step whose outcome is known. -/
theorem returns_step {s t : σ} (hp : p.run h s = .done a t) (hf : Returns h (f a) t Q) :
    Returns h (p >>= f) s Q := by
  obtain ⟨b, u, hrun, hQ⟩ := hf
  exact ⟨b, u, by rw [run_bind_done hp, hrun], hQ⟩

theorem returns_mono {P Q : α → σ → Prop} (hp : Returns h p s P) (hPQ : ∀ a t, P a t → Q a t) :
    Returns h p s Q := by
  obtain ⟨a, t, hrun, hP⟩ := hp
  exact ⟨a, t, hrun, hPQ a t hP⟩

theorem stops_bind {e : ε} (hp : Returns h p s P) (hf : ∀ a t, P a t → (f a).run h t = .stop e) :
    (p >>= f).run h s = .stop e := by
  obtain ⟨a, t, hrun, hP⟩ := hp
  rw [run_bind_done hrun, hf a t hP]

theorem stops_step {s t : σ} {e : ε} (hp : p.run h s = .done a t) (hf : (f a).run h t = .stop e) :
    (p >>= f).run h s = .stop e :=
  (run_bind_done hp).trans hf

/-- A handler keeps the promises of `spec`, which speaks of the part `view` of its state, and stops
at most for a reason that `allow` allows. -/
def Handler.Keeps (h : Handler C A ε σ) (view : σ → τ) (spec : Spec C A τ) (allow : ε → Prop) :
    Prop :=
  ∀ (c : C) (s : σ) (Q : A c → τ → Prop), spec c (view s) Q →
    match h c s with
    | .done x t => Q x (view t)
    | .stop e => allow e

theorem wp_sound {view : σ → τ} {spec : Spec C A τ} {allow : ε → Prop}
    (hk : Handler.Keeps h view spec allow) {Q : α → τ → Prop} (hp : p.wp spec (view s) Q) :
    match p.run h s with
    | .done a t => Q a (view t)
    | .stop e => allow e := by
  induction p generalizing s with
  | ret a => exact hp
  | ask c k ih =>
    have hstep := hk c s _ hp
    rw [run]
    cases hc : h c s with
    | done x t => rw [hc] at hstep; exact ih x hstep
    | stop e => rw [hc] at hstep; exact hstep

/-- One run follows another: it returns the same value in a related state, and stops where the
other stops for a reason in `strict`. -/
def Follows (R : σ → τ → Prop) (strict : ε → Prop) (r : Result ε σ α) (r' : Result ε τ α) : Prop :=
  match r' with
  | .done a t => ∃ s, r = .done a s ∧ R s t
  | .stop e => strict e → r = .stop e

/-- If each command of `h` follows that of `h'`, so does each program. -/
theorem run_sim {h' : Handler C A ε τ} {R : σ → τ → Prop} {strict : ε → Prop}
    (hsim : ∀ (c : C) (s : σ) (t : τ), R s t → Follows R strict (h c s) (h' c t))
    (p : Prog C A α) {t : τ}
    (hR : R s t) : Follows R strict (p.run h s) (p.run h' t) := by
  induction p generalizing s t with
  | ret a => exact ⟨s, rfl, hR⟩
  | ask c k ih =>
    have hc := hsim c s t hR
    rw [run, run]
    cases hc' : h' c t with
    | done x t' =>
      rw [hc'] at hc
      obtain ⟨s', hs', hR'⟩ := hc
      rw [hs']
      exact ih x hR'
    | stop e =>
      rw [hc'] at hc
      intro he
      rw [hc he]

end Prog

end IndexOS.Interaction
