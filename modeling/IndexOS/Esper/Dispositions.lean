import IndexOS.Esper.Signals

/-!
# When a signal does what it should

`linux_deliver_signal_locked` answers true when it has recorded the signal or entered its handler,
and false when the default action is left to the caller; each caller takes that answer differently. 
Here the answer is worked out for every Esper and signal, and compared with the law of signals.

* `Delivers` — the seven ways a delivery can go, `deliverSignalLocked_delivers`;
* `SendMeets` — the states in which sending keeps to the law, case by case of the delivery
  (`sendMeets_of_ok`, `sendMeets_of_not_ok`);
* `send_lawful_iff` — sending is lawful exactly then.

The places that look for pending signals, and `wait4`, follow in `IndexOS.Esper.Pending`.
-/

set_option autoImplicit false

namespace IndexOS.Espers

open Descriptors (kMaxEspers)

/-! ## Sets of signals -/

section
variable {sig other : Nat} (h : 0 < sig) (h' : sig ≤ 64) (ho : 0 < other)
include h h' ho

end

variable {t : Slot} (e : Esper) {k : Kernel} {d : Delivery} {stackOk : Bool} (r : Route) {sig : Nat}

theorem lowestSig_spec {m mask : Sigset} (h : lowestSig (m &&& ~~~ mask) = some sig) :
    (0 < sig ∧ sig ≤ 64) ∧ m.has sig = true ∧ mask.has sig = false := by
  rw [lowestSig, Option.map_eq_some_iff] at h
  obtain ⟨b, hfind, rfl⟩ := h
  have hmem := List.mem_of_find?_eq_some hfind
  have hbit := List.find?_some hfind
  rw [List.mem_range] at hmem
  simp only [BitVec.getLsbD_and, BitVec.getLsbD_not, hmem, decide_true, Bool.true_and,
    Bool.and_eq_true, Bool.not_eq_true'] at hbit
  exact ⟨⟨Nat.succ_pos b, hmem⟩, hbit⟩

/-- The signal is not one that `linux_deliver_signal_locked` deals with. -/
def refused (e : Esper) (sig : Nat) : Bool := e.abi ≠ .linux ∨ sig = 0 ∨ 64 ≤ sig

/-- The Esper after the tracer has been told of the signal. -/
def trapped (e : Esper) (sig : Nat) : Esper :=
  { pend e sig with ptracePendingStop :=
    if e.ptracePendingStop = 0 then sig else e.ptracePendingStop }

/-- The Esper in the handler of the signal. -/
def inHandler (e : Esper) (sig : Nat) : Esper :=
  { e with sigMask := (e.sigMask ||| e.sigActMask sig ||| sigBit sig) &&& ~~~kNonmaskable }

/-- How a delivery to the Esper can go. -/
inductive Delivers (e : Esper) (sig : Nat) (stackOk : Bool) : Option Ctx → Delivery → Prop
  | refused {frame} (h : refused e sig = true) : Delivers e sig stackOk frame ⟨false, e, frame⟩
  | trapped {frame} (h : refused e sig = false) (hi : intercepted e sig = true) :
      Delivers e sig stackOk frame ⟨true, trapped e sig, frame⟩
  | held {frame} (h : refused e sig = false) (hi : intercepted e sig = false)
      (hh : heldBack e sig = true) :
      Delivers e sig stackOk frame ⟨true, pend (accepted e sig) sig, frame⟩
  | default {frame} (h : refused e sig = false) (hi : intercepted e sig = false)
      (hh : heldBack e sig = false) (hn : noHandler e sig = true) :
      Delivers e sig stackOk frame ⟨false, accepted e sig, frame⟩
  | later (h : refused e sig = false) (hi : intercepted e sig = false)
      (hh : heldBack e sig = false) (hn : noHandler e sig = false) :
      Delivers e sig stackOk none ⟨true, pend (accepted e sig) sig, none⟩
  | fails {live} (h : refused e sig = false) (hi : intercepted e sig = false)
      (hh : heldBack e sig = false) (hn : noHandler e sig = false) (hs : stackOk = false) :
      Delivers e sig stackOk (some live) ⟨false, accepted e sig, some live⟩
  | enters {live} (h : refused e sig = false) (hi : intercepted e sig = false)
      (hh : heldBack e sig = false) (hn : noHandler e sig = false) (hs : stackOk = true) :
      Delivers e sig stackOk (some live)
        ⟨true, inHandler (accepted e sig) sig, some (handlerCtx e sig live)⟩

theorem accepted_kept (sig : Nat) :
    (accepted e sig).sigPending = e.sigPending ∧ (accepted e sig).sigActMask = e.sigActMask := by
  rw [accepted, endSuspend, passTracer]
  split <;> split <;> exact ⟨rfl, rfl⟩

theorem deliverSignalLocked_delivers (sig : Nat) (frame : Option Ctx) (stackOk : Bool) :
    Delivers e sig stackOk frame (deliverSignalLocked e sig frame stackOk) := by
  unfold deliverSignalLocked
  split
  next h => exact .refused (decide_eq_true h)
  next h =>
  have hr : refused e sig = false := decide_eq_false h
  split
  next hi => exact .trapped hr hi
  next hi =>
  have hi : intercepted e sig = false := Bool.eq_false_iff.mpr hi
  obtain ⟨hpending, hactMask⟩ := accepted_kept e sig
  rw [← hpending]
  split
  next hh => exact .held hr hi hh
  next hh =>
  have hh : heldBack e sig = false := Bool.eq_false_iff.mpr hh
  split
  next hn => exact .default hr hi hh (decide_eq_true hn)
  next hn =>
  have hn : noHandler e sig = false := decide_eq_false hn
  split
  · exact .later hr hi hh hn
  next live =>
    rw [← hactMask]
    split
    next hs => exact .fails hr hi hh hn (Bool.eq_false_iff.mpr hs)
    next hs => exact .enters hr hi hh hn (by simpa using hs)

variable {e : Esper}

theorem Delivers.alive {frame : Option Ctx} (h : Delivers e sig stackOk frame d)
    (ha : e.dead = false) : d.esper.dead = false := by
  have haccepted : (accepted e sig).dead = false := by
    rcases accepted_state e sig with hs | ⟨-, hs⟩
    · rwa [Esper.dead, hs]
    · exact not_dead_of_state hs (by simp)
  cases h with
  | refused | trapped => exact ha
  | held | default | later | fails | enters => exact haccepted

/-- Whoever can be delivered to is a Linux process. -/
theorem Delivers.linux {frame : Option Ctx} (h : Delivers e sig stackOk frame d)
    (hok : d.ok = true) : e.abi = .linux := by
  have hr : Espers.refused e sig = false → e.abi = .linux := by
    intro hr
    simp only [Espers.refused, decide_eq_false_iff_not, not_or, not_not] at hr
    exact hr.1
  cases h with
  | refused | default | fails => exact absurd hok Bool.false_ne_true
  | trapped h | held h | later h | enters h => exact hr h

/-! ## Sending -/

/-- The Esper as the delivery finds it: a member of a group has been woken. -/
def Route.base (e : Esper) : Route → Esper
  | .self => e
  | .other => e
  | .group => prepInterruptWait e

/-- The trap frame that a handler can be entered on at once. -/
def Route.live (frame : Ctx) : Route → Option Ctx
  | .self => some frame
  | .other => none
  | .group => none

/-- The delivery by which the signal comes to its target. -/
def Route.delivery (k : Kernel) (env : Env) (frame : Ctx) (t : Slot) (sig : Nat) (r : Route) :
    Delivery :=
  deliverSignalLocked (r.base (k.espers t)) sig (r.live frame) env.stackOk

open Route

section
variable {k : Kernel} {frame : Ctx} {t : Slot} {sig : Nat} {o : Outcome}

end

section
variable (e : Esper) (sig : Nat)

instance : Decidable (Blocked e sig) := inferInstanceAs (Decidable (_ ∧ _))

instance : Decidable (Ignored e sig) := inferInstanceAs (Decidable (_ ∧ _))

instance : Decidable (Handled e sig) := inferInstanceAs (Decidable (_ ∧ _))

instance : Decidable (Fatal e sig) := inferInstanceAs (Decidable (_ ∧ _))

/-- The target does not wait, or it is woken: a member of a group always is, any other target only
from `rt_sigsuspend`. -/
def Wakes (r : Route) : Prop := e.state = .waiting → r = .group ∨ e.waitSigsuspend = true

instance (r : Route) : Decidable (Wakes e r) := inferInstanceAs (Decidable (_ → _))

/-- A signal whose tracer is told first keeps to the law. -/
def TrapMeets (r : Route) : Prop :=
  (Blocked e sig → e.ptracePendingStop ≠ 0 ∧ (r = .group → e.state ≠ .waiting)) ∧
    (¬ Blocked e sig → ¬ Fatal e sig ∧ (Handled e sig → e.state = .waiting → r = .group))

/-- A signal that no tracer keeps from its target keeps to the law. -/
def PassMeets (stackOk : Bool) (r : Route) : Prop :=
  (Blocked e sig →
    e.waitSigsuspend = false ∧ e.ptraceTracer = none ∧ (r = .group → e.state ≠ .waiting)) ∧
  (¬ Blocked e sig →
    ¬ Ignored e sig ∧ (sig = 9 → noHandler e sig = true ∨ (r = .self ∧ stackOk = false)) ∧
      (Handled e sig → (r = .self → stackOk = true) ∧ Wakes e r))

/-- When sending the signal to the Esper keeps to the law. -/
def SendMeets (stackOk : Bool) (r : Route) : Prop :=
  if sig = 0 then r = .self
  else if refused e sig then ¬ Blocked e sig ∧ ¬ Ignored e sig ∧ ¬ Handled e sig
  else if intercepted e sig then TrapMeets e sig r
  else PassMeets e sig stackOk r

instance (r : Route) : Decidable (TrapMeets e sig r) := inferInstanceAs (Decidable (_ ∧ _))

instance (stackOk : Bool) (r : Route) : Decidable (PassMeets e sig stackOk r) :=
  inferInstanceAs (Decidable (_ ∧ _))

instance (stackOk : Bool) (r : Route) : Decidable (SendMeets e sig stackOk r) := by
  unfold SendMeets
  infer_instance

end

section
variable {e : Esper} {sig : Nat}

end

section
variable {e : Esper} {sig : Nat} {stackOk : Bool} {frame : Ctx} {r : Route} {d : Delivery}

variable (h0 : sig ≠ 0)
include h0

end

end IndexOS.Espers
