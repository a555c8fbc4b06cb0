import IndexOS.Esper.Effects

/-!
# What a signal does

Sending a signal, by `kill`, `tkill`, `tgkill` or to a process group, and the places where a process
looks for signals that were held back: `rt_sigprocmask`, `rt_sigreturn`, `rt_sigsuspend`, the masks
of `ppoll`, `pselect6` and `epoll_pwait`, and the timer tick.  They are compared with the law of
signals:

* `SendLaw` — signal 0 changes nothing; SIGKILL ends the process; a signal that is ignored does not;
  one that is blocked is pending afterwards and that is all; one with a handler starts it, or is
  pending for a process that is no longer waiting and so comes to look for it; one that is fatal by
  default ends the process with the signal as its status;
* `DrainLaw` — the same of a pending signal when it is looked at;
* `ReapLaw` — `wait4` does not take a signal that is blocked or has a handler;
* `SigOp.Lawful` — the operation keeps to the law that is about it.

The status of a process that a signal ended is, in this kernel, the exit code 128 plus the signal. 
A pending signal can also be read from a signalfd, and a traced process stops for its tracer, who
then decides about the signal; these take the signal by design and are not looked at here.
-/

set_option autoImplicit false

namespace IndexOS.Espers

open Descriptors (kMaxEspers)

/-! ## The law -/

/-- The signals whose default action is to be ignored: SIGCHLD, SIGCONT, SIGURG, SIGWINCH. -/
def ignoredByDefault (sig : Nat) : Bool := sig = 17 ∨ sig = 18 ∨ sig = 23 ∨ sig = 28

/-- The signals whose default action is to stop: SIGSTOP, SIGTSTP, SIGTTIN, SIGTTOU. -/
def stopsByDefault (sig : Nat) : Bool := sig = 19 ∨ sig = 20 ∨ sig = 21 ∨ sig = 22

section
variable (e : Esper) (sig : Nat)

/-- The mask blocks the signal; SIGKILL and SIGSTOP are never blocked. -/
def Blocked : Prop := sig ≠ 0 ∧ sig ≠ 9 ∧ sig ≠ 19 ∧ e.sigMask.has sig = true

def Ignored : Prop :=
  sig ≠ 0 ∧ sig ≠ 9 ∧ (e.sigHandler sig = 1 ∨ (e.sigHandler sig = 0 ∧ ignoredByDefault sig = true))

def Handled : Prop := sig ≠ 0 ∧ sig ≠ 9 ∧ e.sigHandler sig ≠ 0 ∧ e.sigHandler sig ≠ 1

def Fatal : Prop :=
  sig ≠ 0 ∧ e.sigHandler sig = 0 ∧ ignoredByDefault sig = false ∧ stopsByDefault sig = false

/-- The Esper with the signal pending, and nothing else changed. -/
def pend : Esper := { e with sigPending := e.sigPending ||| sigBit sig }

end

/-- The kernel after an operation, and the trap frame of the CPU it was done on. -/
structure Outcome where
  kernel : Kernel
  frame : Ctx

/-- What becomes of the Esper at `t` when it is sent the signal; `frame` is the trap frame at the
end of the call that sends it, before a handler is entered.  A handler runs when its process does,
so a target that waits has to be woken for it. -/
structure SendLaw (k : Kernel) (frame : Ctx) (t : Slot) (sig : Nat) (o : Outcome) : Prop where
  zero : sig = 0 → o.kernel = k ∧ o.frame = frame
  kill : sig = 9 → (o.kernel.espers t).dead = true
  ignored : Ignored (k.espers t) sig → (o.kernel.espers t).dead = false
  blocked : Blocked (k.espers t) sig →
    o.kernel = k.set t (pend (k.espers t) sig) ∧ o.frame = frame
  handled : ¬ Blocked (k.espers t) sig → Handled (k.espers t) sig →
    (o.kernel.espers t).dead = false ∧
      ((k.espers t).state = .waiting → (o.kernel.espers t).state = .ready) ∧
      ((o.frame = handlerCtx (k.espers t) sig frame ∧
          (o.kernel.espers t).sigPending.has sig = (k.espers t).sigPending.has sig) ∨
        (o.frame = frame ∧ (o.kernel.espers t).sigPending.has sig = true))
  fatal : ¬ Blocked (k.espers t) sig → Fatal (k.espers t) sig →
    (o.kernel.espers t).dead = true ∧ (o.kernel.espers t).exitCode = 128 + sig

/-- What becomes of the Esper at `t` when its pending signal is looked at and nothing blocks it. 
Where the CPU is about to switch to another Esper the handler may be left for later. -/
structure DrainLaw (k : Kernel) (frame : Ctx) (t : Slot) (sig : Nat) (switching : Bool)
    (o : Outcome) : Prop where
  kill : sig = 9 → (o.kernel.espers t).dead = true
  ignored : Ignored (k.espers t) sig → (o.kernel.espers t).dead = false
  handled : Handled (k.espers t) sig →
    (o.kernel.espers t).dead = false ∧
      ((o.frame = handlerCtx (k.espers t) sig frame ∧
          (o.kernel.espers t).sigPending.has sig = false) ∨
        (switching = true ∧ (o.kernel.espers t).sigPending.has sig = true))
  fatal : Fatal (k.espers t) sig →
    (o.kernel.espers t).dead = true ∧ (o.kernel.espers t).exitCode = 128 + sig
  others : (o.kernel.espers t).dead = false → ∀ other, other ≠ sig → 0 < other → other ≤ 64 →
    (o.kernel.espers t).sigPending.has other = (k.espers t).sigPending.has other

/-! ## Sending -/

/-- What the code meets that is not in the tables: the CPU, its counter, and whether a signal frame
fits below the stack pointer. -/
structure Env where
  cpu : Cpu
  now : Nat
  stackOk : Bool

/-- How a signal comes to its target. -/
inductive Route where
  | self
  | other
  | group
deriving DecidableEq

variable (k : Kernel)

/-- `linux_exit_running`, that is `exit_and_schedule`; the descriptors and images it releases are
not looked at here. -/
def exitRunning (env : Env) (me : Slot) (code : Int) : Kernel :=
  (exitAndPick (ipcWake k .vforkDone (some (k.espers me).pid)) env.cpu env.now me code).2

/-- The signal is the running Esper's own: `kill`, `tkill` or `tgkill` with its own pid. -/
def sendSelf (env : Env) (frame : Ctx) (me : Slot) (sig : Nat) : Outcome :=
  if sig = 0 then ⟨k, frame⟩
  else
    let d := deliverSignalLocked (k.espers me) sig (some frame) env.stackOk
    if d.ok then ⟨k.set me d.esper, d.frame.getD frame⟩
    else ⟨exitRunning (k.set me d.esper) env me (128 + sig), frame⟩

def send (env : Env) (frame : Ctx) (t : Slot) (sig : Nat) : Route → Outcome
  | .self => sendSelf k env frame t sig
  | .other => ⟨(fortis931Kill k t sig).2, frame⟩
  | .group => ⟨killInGroup k t sig, frame⟩

/-- The Esper that `kill(tid, sig)` is about. -/
def killTarget (me : Slot) (tid : Nat) : Option (Route × Slot) :=
  if (k.espers me).pid = tid then some (.self, me)
  else
    ((List.finRange kMaxEspers).find? fun i => (k.espers i).pid = tid ∧ ¬ (k.espers i).dead).map
      fun i => (.other, i)

/-! ## Looking for what is pending -/

/-- Where pending signals are looked at: a mask that is set for good, restored, waited with, polled
with; or the timer tick, with or without another Esper to switch to. -/
inductive Drain where
  | sigprocmask (mask : Sigset)
  | sigreturn (mask : Sigset) (ctx : Ctx)
  | sigsuspend (mask : Sigset)
  | poll (mask : Sigset)
  | preempt (switching : Bool)

/-- The mask that decides which pending signals are looked at. -/
def Drain.mask (e : Esper) : Drain → Sigset
  | .sigprocmask mask => mask
  | .sigreturn mask _ => mask &&& ~~~kNonmaskable
  | .sigsuspend mask => mask &&& ~~~kNonmaskable
  | .poll mask => mask
  | .preempt _ => e.sigMask

/-- The Esper when the call comes to look for signals. -/
def Drain.enter (e : Esper) : Drain → Esper
  | .sigprocmask mask => { e with sigMask := mask }
  | .sigreturn mask _ => { e with sigMask := mask &&& ~~~kNonmaskable }
  | .sigsuspend mask =>
    { e with
      sigsuspendSavedMask := e.sigMask
      sigMask := mask &&& ~~~kNonmaskable
      waitSigsuspend := true }
  | .poll _ => e
  | .preempt _ => e

/-- The trap frame when the call comes to look for signals. -/
def Drain.frame (frame : Ctx) : Drain → Ctx
  | .sigprocmask _ => frame
  | .sigreturn _ ctx =>
    { ctx with
      spsr := (ctx.spsr &&& 0xF0000000) ||| (kSpsrEl0Handler &&& ~~~0xF0000000)
      tpidr := frame.tpidr
      fpsimd := frame.fpsimd }
  | .sigsuspend _ => frame.setX0 eintr
  | .poll _ => frame.setX0 eintr
  | .preempt _ => frame

def Drain.switching : Drain → Bool
  | .preempt switching => switching
  | _ => false

/-- The signal with the lowest number in the set. -/
def lowestSig (m : Sigset) : Option Nat :=
  ((List.range 64).find? fun b => m.getLsbD b).map (· + 1)

/-- The signal that is looked at, if there is one. -/
def Drain.sig (e : Esper) (d : Drain) : Option Nat :=
  if e.abi = .linux then lowestSig (e.sigPending &&& ~~~ d.mask e) else none

/-- The Esper without the pending signal. -/
def unpend (e : Esper) (sig : Nat) : Esper :=
    { e with sigPending := e.sigPending &&& ~~~ sigBit sig }

/-- The disposition is SIG_DFL or SIG_IGN. -/
def noHandler (e : Esper) (sig : Nat) : Bool := e.sigHandler sig = 0 ∨ e.sigHandler sig = 1

/-- One pending signal is looked at, in each of the places; `rt_sigprocmask` looks at further ones
afterwards when this was a SIGCHLD that has no handler. -/
def Drain.act (env : Env) (frame : Ctx) (me : Slot) (sig : Nat) (d : Drain) : Outcome :=
  let e := d.enter (k.espers me)
  let r := deliverSignalLocked e sig (if d.switching then none else some (d.frame frame))
    env.stackOk
  let kept : Kernel := k.set me r.esper
  let taken : Kernel := k.set me (unpend r.esper sig)
  match d with
  | .sigprocmask _ =>
    if r.ok then ⟨taken, r.frame.getD frame⟩
    else if noHandler e sig then
      if sig = 17 then ⟨taken, frame⟩ else ⟨exitRunning taken env me (128 + sig), frame⟩
    else ⟨kept, frame.setX0 0⟩
  | .sigreturn _ _ =>
    if r.ok ∨ noHandler e sig then ⟨taken, r.frame.getD frame⟩ else ⟨kept, r.frame.getD frame⟩
  | .sigsuspend _ => ⟨taken, r.frame.getD frame⟩
  | .poll _ =>
    if r.ok then ⟨kept, r.frame.getD frame⟩
    else if noHandler e sig then ⟨taken, frame⟩
    else ⟨kept, frame⟩
  | .preempt switching =>
    if r.ok ∧ ¬ switching then ⟨taken, r.frame.getD frame⟩
    else if ¬ r.ok ∧ noHandler e sig then ⟨taken, frame⟩
    else ⟨kept, frame⟩

/-- Where pending signals are looked at: nothing is done if none is there that the mask lets
through. -/
def Drain.run (env : Env) (frame : Ctx) (me : Slot) (d : Drain) : Outcome :=
  match d.sig (k.espers me) with
  | some sig => d.act k env frame me sig
  | none => ⟨k.set me (d.enter (k.espers me)), d.frame frame⟩

/-- The section of `linux_wait4` that reaps a child: the last one takes the pending SIGCHLD with
it. -/
def reap (me child : Slot) : Kernel :=
  let k := k.set child ((k.espers child).become .free)
  if ∃ j, (k.espers j).parent = some me ∧
      ((k.espers j).state = .exited ∨ (k.espers j).state = .faulted) then k
  else k.set me (unpend (k.espers me) 17)

/-! ## The operations -/

/-- What `wait4` may not do when it reaps: lose a SIGCHLD that is blocked or has a handler. -/
def ReapLaw (me : Slot) (k' : Kernel) : Prop :=
  ∀ sig, 0 < sig → sig ≤ 64 → (Blocked (k.espers me) sig ∨ Handled (k.espers me) sig) →
    (k'.espers me).sigPending.has sig = (k.espers me).sigPending.has sig

/-- A signal is sent by `kill`, `tkill` or `tgkill`, or to a member of a process group in turn;
pending signals are looked at; or a child is reaped. -/
inductive SigOp where
  | kill (me : Slot) (tid sig : Nat)
  | group (t : Slot) (sig : Nat)
  | drain (me : Slot) (d : Drain)
  | reap (me child : Slot)

/-- The operation keeps to the law.  At the end of a call that sends a signal the first register is
0. -/
def SigOp.Lawful (env : Env) (frame : Ctx) : SigOp → Prop
  | .kill me tid sig =>
    ∀ r t, killTarget k me tid = some (r, t) →
      SendLaw k (frame.setX0 0) t sig (send k env (frame.setX0 0) t sig r)
  | .group t sig => SendLaw k frame t sig (send k env frame t sig .group)
  | .drain me d =>
    ∀ sig, d.sig (k.espers me) = some sig →
      DrainLaw k (d.frame frame) me sig d.switching (d.run k env frame me)
  | .reap me child => ReapLaw k me (Espers.reap k me child)

end IndexOS.Espers
