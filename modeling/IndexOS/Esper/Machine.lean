import IndexOS.Esper.Signals
import IndexOS.Lib.Traces

/-!
# The CPUs

The critical sections as the callers in `usermode.cpp` put them together.  Each CPU is somewhere
between its scheduler loop, EL0 and the kernel, and holds the registers of some Esper; an event is
what one CPU does next, at most one critical section of it.  Events of different CPUs come in any
order, and an event that does not belong where its CPU is does nothing.

* `Mode` — where a CPU is, with the index that the code there has in its hands;
* `Quiet`, `Own` — what the kernel does without a switch, to anybody and for the Esper whose trap it
  is;
* `Wait`, `Stop`, `Leave` — the ways in which a system call gives the CPU away;
* `Event`, `Machine.step`, `Machine.run`.

A call finds its Esper through `g_running`.  Whose registers the CPU really holds is kept beside it,
as `live`, and an Esper that has not started holds its entry and its stack in the saved context. 
What is read from user memory and from the objects behind the descriptors is an argument of the
event.
-/

set_option autoImplicit false

namespace IndexOS.Espers

open Function (update)
open Descriptors (kMaxEspers)

/-! ## Where a CPU is -/

inductive Mode where
  /-- the scheduler loop -/
  | idle
  /-- the loop has claimed the Esper and is about to enter it -/
  | claimed (n : Slot)
  /-- EL0 -/
  | user
  /-- a trap, whose index is the Esper's -/
  | kernel (i : Slot)
  /-- `clone`, after `esper_create` -/
  | cloning (i child : Slot) (vm vfork : Bool)
  /-- `clone`, after a hand-off that found nobody to run -/
  | stranded (i child : Slot)
  /-- `exit_and_schedule`, before `esper_exit_and_pick` -/
  | exiting (i : Slot) (code : Int)
  /-- the native `kill`, after the Esper has killed itself -/
  | killedSelf (i : Slot)
  /-- the trap of `old` with another Esper loaded; `hooks` if the end of the Linux dispatcher is
  still to come -/
  | switched (old : Slot) (hooks : Bool)
deriving DecidableEq

structure Machine where
  kernel : Kernel := {}
  mode : Cpu → Mode := fun _ => .idle
  /-- whose registers the CPU holds -/
  live : Cpu → Option Slot := fun _ => none
  /-- the registers the CPU holds, or will hold when the trap returns -/
  frame : Cpu → Ctx := fun _ => {}

/-! ## Without a switch -/

/-- A thread that waits on the word is woken. -/
def endFutexWait (e : Esper) : Esper :=
    { e with waitFutex := false, waitFutexPhys := 0, state := .ready }

/-- One turn of the loop of `futex_wake_phys`, with the number of threads woken so far -/
def futexTurn (phys count : Nat) (s : Kernel × Nat) (i : Slot) : Kernel × Nat :=
  let e := s.1.espers i
  if s.2 < count ∧ e.state = .waiting ∧ e.waitFutex ∧ e.waitFutexPhys = phys then
    (s.1.set i (endFutexWait e), s.2 + 1)
  else s

/-- `futex_wake_phys` -/
def futexWake (k : Kernel) (phys count : Nat) : Kernel :=
  ((List.finRange kMaxEspers).foldl (futexTurn phys count) (k, 0)).1

/-- `esper_set_online_cpus` -/
def setOnlineCpus (k : Kernel) (n : Nat) : Kernel :=
  { k with onlineCpus := if n = 0 then 1 else min n kMaxCpus }

/-- The kinds of wait that system calls wait with and producers wake; the others are woken by the
code that uses them. -/
def producible (kind : IpcWaitKind) : Bool := kind ≠ .none ∧ kind ≠ .vforkDone ∧ kind ≠ .ptraceStop

/-- Critical sections that any CPU can be in at any time, in a system call or in an interrupt. -/
inductive Quiet where
  | ipcWake (kind : IpcWaitKind) (id : Option Nat)
  | wakePipe (p : Nat) (writers : Bool)
  | futexWake (phys count : Nat)
  | kill (t : Slot) (sig : Nat)
  | killPgrp (pgrp sig : Nat)
  | post (t : Slot) (sig : Nat)
  | setOnlineCpus (n : Nat)

def Quiet.run (k : Kernel) : Quiet → Kernel
  | .ipcWake kind id => if producible kind then Espers.ipcWake k kind id else k
  | .wakePipe p writers => Espers.wakePipe k p writers
  | .futexWake phys count => Espers.futexWake k phys count
  | .kill t sig => (fortis931Kill k t sig).2
  | .killPgrp pgrp sig => fortis931KillPgrp k pgrp sig
  | .post t sig => k.set t (postSignal (k.espers t) sig)
  | .setOnlineCpus n => Espers.setOnlineCpus k n

/-- `PTRACE_ATTACH` on an Esper that nobody traces yet -/
def attach (e : Esper) (tracer : Slot) : Esper :=
  let e := { e with
    ptraceTracer := some tracer
    ptraceInSyscall := false
    ptracePendingStop := if e.ptracePendingStop = 0 then 19 else e.ptracePendingStop
    sigPending := e.sigPending ||| sigBit 19 }
  if e.state = .waiting ∧ e.waitPipeIdx = none ∧ e.ipcWaitKind ≠ .ptraceStop then
    { e with
      ctx := e.ctx.setX0 eintr, ipcWaitKind := .none, ipcWaitId := none, wakeCntpct := 0
      state := .ready }
  else e

/-- `mental_out_resume` -/
def mentalOutResume (e : Esper) (singleStep syscallMode : Bool) (injectSig : Nat) : Esper :=
  let e := { e with
    ptraceStopped := false
    ptraceReport := false
    ptraceSinglestep := singleStep
    ptraceSyscall := syscallMode
    ptraceInSyscall := syscallMode && e.ptraceInSyscall }
  let e :=
    if 0 < injectSig ∧ injectSig < 64 then
      { e with ptraceInjectSig := injectSig, sigPending := e.sigPending ||| sigBit injectSig }
    else e
  if e.state = .waiting ∧ e.ipcWaitKind = .ptraceStop then
    { e with ipcWaitKind := .none, ipcWaitId := none, state := .ready }
  else e

/-- The child that `wait4` would reap: of any pid, or of the one asked for. -/
def reapable (k : Kernel) (me : Slot) (want : Int) : Option Slot :=
  (List.finRange kMaxEspers).find? fun i =>
    (k.espers i).parent = some me ∧ (want ≤ 0 ∨ ((k.espers i).pid : Int) = want) ∧
      ((k.espers i).state = .exited ∨ (k.espers i).state = .faulted)

/-- An image is loaded into the Esper: handlers go back to the default, the rest of the dispositions
stays. -/
def loadImage (e : Esper) (abi : Abi) (mm : Option Nat) (ctx : Ctx) : Esper :=
  { e with
    abi := abi
    mm := mm
    ctx := ctx
    sigHandler := fun sig => if 1 < e.sigHandler sig then 0 else e.sigHandler sig }

/-- What a call does for the Esper whose trap it is. -/
inductive Own where
  | result (v : UInt64)
  | sigaction (sig : Nat) (handler restorer : UInt64) (mask : Sigset)
  | sigprocmask (mask : Sigset)
  | sigreturn (mask : Sigset) (ctx : Ctx)
  | signal (sig : Nat) (stackOk consumed : Bool)
  | setpgid (t : Slot) (pgrp : Nat)
  | exec (abi : Abi) (mm : Option Nat) (ctx : Ctx)
  | reap (want : Int)
  | traceme
  | attach (t : Slot)
  | seize (t : Slot) (sysgood : Bool)
  | setoptions (t : Slot) (sysgood : Bool)
  | detach (t : Slot) (injectSig : Nat)
  | ptraceKill (t : Slot)
  | resume (t : Slot) (singleStep syscallMode : Bool) (injectSig : Nat)
  | setregs (t : Slot) (ctx : Ctx)

/-- The target is traced by the Esper and has stopped. -/
def stoppedFor (k : Kernel) (i t : Slot) : Bool :=
  (k.espers t).ptraceTracer = some i ∧ (k.espers t).ptraceStopped ∧ (k.espers t).state ≠ .free

/-- The call as the kernel and the trap frame see it. -/
def Own.run (k : Kernel) (frame : Ctx) (i : Slot) : Own → Kernel × Ctx
  | .result v => (k, frame.setX0 v)
  | .sigaction sig handler restorer mask =>
    (k.set i { k.espers i with
      sigHandler := update (k.espers i).sigHandler sig handler
      sigRestorer := update (k.espers i).sigRestorer sig restorer
      sigActMask := update (k.espers i).sigActMask sig mask }, frame)
  | .sigprocmask mask => (k.set i { k.espers i with sigMask := mask }, frame)
  | .sigreturn mask ctx =>
    (k.set i { k.espers i with sigMask := mask &&& ~~~kNonmaskable },
      Drain.frame frame (.sigreturn mask ctx))
  | .signal sig stackOk consumed =>
    let d := deliverSignalLocked (k.espers i) sig (some frame) stackOk
    (k.set i (if consumed then unpend d.esper sig else d.esper), d.frame.getD frame)
  | .setpgid t pgrp => (k.set t { k.espers t with pgrp := pgrp }, frame)
  | .exec abi mm ctx =>
    (ipcWake (k.set i (loadImage (k.espers i) abi mm ctx)) .vforkDone (some (k.espers i).pid), ctx)
  | .reap want =>
    match reapable k i want with
    | some child => (Espers.reap k i child, frame.setX0 (UInt64.ofNat (k.espers child).pid))
    | none => (k, frame)
  | .traceme =>
    (k.set i { k.espers i with ptraceTracer := (k.espers i).parent, ptraceInSyscall :=
      false }, frame)
  | .attach t =>
    if (k.espers t).dead ∨ (k.espers t).ptraceTracer.isSome then (k, frame)
    else (k.set t (Espers.attach (k.espers t) i), frame)
  | .seize t sysgood =>
    if (k.espers t).dead ∨ (k.espers t).ptraceTracer.isSome then (k, frame)
    else
      (k.set t { k.espers t with
        ptraceTracer := some i, ptraceInSyscall := false, ptraceSysgood := sysgood }, frame)
  | .setoptions t sysgood =>
    if stoppedFor k i t then (k.set t { k.espers t with ptraceSysgood := sysgood }, frame)
    else (k, frame)
  | .detach t injectSig =>
    if stoppedFor k i t then
      (k.set t (mentalOutResume { k.espers t with ptraceTracer := none, ptracePendingStop := 0 }
        false false injectSig), frame)
    else (k, frame)
  | .ptraceKill t =>
    if (k.espers t).ptraceTracer = some i ∧ (k.espers t).state ≠ .free then
      (k.set t (mentalOutResume (k.espers t) false false 9), frame)
    else (k, frame)
  | .resume t singleStep syscallMode injectSig =>
    if stoppedFor k i t then
      (k.set t (mentalOutResume (k.espers t) singleStep syscallMode injectSig), frame)
    else (k, frame)
  | .setregs t ctx =>
    if stoppedFor k i t then
      (k.set t { k.espers t with ctx := { ctx with
        spsr := (ctx.spsr &&& 0xF0000000) ||| (kSpsrEl0Handler &&& ~~~0xF0000000)
        tpidr := (k.espers t).ctx.tpidr
        fpsimd := (k.espers t).ctx.fpsimd } }, frame)
    else (k, frame)

/-! ## Giving the CPU away -/

/-- What a blocking call waits for. -/
inductive Wait where
  /-- `park_on_pipe` -/
  | pipe (p : Nat) (isWrite : Bool)
  /-- `ipc_park_impl` -/
  | ipc (kind : IpcWaitKind) (id : Option Nat)
  /-- `ipc_park_locked` -/
  | ipcLocked (kind : IpcWaitKind) (id : Option Nat)
  /-- `linux_nanosleep_park` -/
  | sleep (deadline : Nat)
  /-- `FUTEX_WAIT` -/
  | futex (phys : Nat)
  /-- `linux_wait4` -/
  | child (statusPtr : UInt64) (target : Int)
  /-- `linux_rt_sigsuspend` -/
  | signals (mask : Sigset)

namespace Wait

/-- The context that is saved: back on the svc, or with the call's result. -/
def saved (frame : Ctx) : Wait → Ctx
  | .pipe _ _ | .ipc _ _ | .ipcLocked _ _ => { frame with elr := frame.elr - 4 }
  | .sleep _ | .futex _ => frame.setX0 0
  | .child _ _ => frame
  | .signals _ => frame.setX0 eintr

/-- The Esper with what it waits for. -/
def record (e : Esper) : Wait → Esper
  | .pipe p isWrite => { e with waitPipeIdx := some p, waitPipeIsWrite := isWrite }
  | .ipc kind id | .ipcLocked kind id => { e with ipcWaitKind := kind, ipcWaitId := id }
  | .sleep deadline => { e with wakeCntpct := deadline }
  | .futex phys => { e with waitFutex := true, waitFutexPhys := phys }
  | .child statusPtr target =>
    { e with
      waitStatusPtr := statusPtr, waitStatusIsLinux := true, wait4TargetPid := target
      ipcWaitKind := .none, waitPipeIdx := none, waitFutex := false, wakeCntpct := 0 }
  | .signals mask =>
    { e with
      sigsuspendSavedMask := e.sigMask, sigMask := mask &&& ~~~kNonmaskable, waitSigsuspend :=
        true }

/-- The call parks through `esper_park_and_pick`, which looks at the state first. -/
def looks : Wait → Bool
  | .ipc _ _ | .sleep _ => true
  | _ => false

/-- The call belongs to `linux_syscall_dispatch`, so that the end of the dispatcher follows. -/
def dispatched (e : Esper) : Wait → Bool
  | .futex _ | .child _ _ | .signals _ => false
  | _ => e.abi = .linux

/-- The call does park: a deadline lies ahead, and `wait4` has found no child to reap. -/
def parks (k : Kernel) (i : Slot) : Wait → Bool
  | .ipc kind _ | .ipcLocked kind _ => producible kind
  | .sleep deadline => deadline ≠ 0
  | .child _ target => (reapable k i target).isNone
  | _ => true

end Wait

/-- The Esper with the registers saved. -/
def saveCtx (e : Esper) (ctx : Ctx) : Esper := { e with ctx := ctx }

/-- The reasons for which a traced Esper stops. -/
inductive Stop where
  | entry
  | exit
  | pending
  | step
deriving DecidableEq

/-- `mental_out_syscall_sig` -/
def syscallSig (e : Esper) : Nat := if e.ptraceSysgood then 0x85 else 5

/-- `mental_out_syscall_trap`, `mental_out_check_stop` and the single step: the Esper, the signal it
reports and whether the svc is executed again, if the Esper is to stop. -/
def Stop.due (e : Esper) : Stop → Option (Esper × Nat × Bool)
  | .entry =>
    if e.ptraceTracer.isSome ∧ e.ptraceSyscall ∧ ¬ e.ptraceInSyscall then
      some ({ e with ptraceInSyscall := true }, syscallSig e, true)
    else none
  | .exit =>
    if e.ptraceTracer.isSome ∧ e.ptraceSyscall ∧ e.ptraceInSyscall then
      some ({ e with ptraceInSyscall := false }, syscallSig e, false)
    else none
  | .pending =>
    if e.ptraceTracer.isSome ∧ e.ptracePendingStop ≠ 0 then
      some (unpend { e with ptracePendingStop := 0 } e.ptracePendingStop, e.ptracePendingStop,
        false)
    else none
  | .step =>
    if e.ptraceTracer.isSome ∧ e.ptraceSinglestep then
      some ({ e with ptraceSinglestep := false }, 5, false)
    else none

/-- `mental_out_tracer_in_wait4` -/
def tracerInWait4 (p : Esper) : Bool :=
  p.state = .waiting ∧ p.waitPipeIdx = none ∧ p.ipcWaitKind = .none ∧ ¬ p.waitFutex ∧
    p.wakeCntpct = 0

/-- The tracer of the Esper at `i` hears of the stop. -/
def tellTracer (k : Kernel) (i : Slot) (sig : Nat) : Kernel :=
  match (k.espers i).ptraceTracer with
  | none => k
  | some j =>
    let tr := k.espers j
    if tracerInWait4 tr then
      k.set j { tr with
        ctx := tr.ctx.setX0 (UInt64.ofNat (k.espers i).pid)
        pendingStatus := sig
        waitStatusIsStop := true
        hasPendingStatus := tr.waitStatusPtr ≠ 0
        state := .ready }
    else if tr.sigHandler 17 = 0 ∨ tr.sigHandler 17 = 1 then k
    else k.set j (postSignal tr 17)

/-- The Esper in a ptrace stop. -/
def stopped (e : Esper) (sig : Nat) (ctx : Ctx) : Esper :=
  { e with
    ctx := ctx
    ptraceStopped := true
    ptraceReport := true
    ptraceStopSig := sig
    ipcWaitKind := .ptraceStop
    ipcWaitId := none }

/-- `mental_out_stop` of the Esper at `i`, which is `e` by now -/
def mentalOutStop (k : Kernel) (cpu : Cpu) (now : Nat) (i : Slot) (frame : Ctx)
    (due : Esper × Nat × Bool) : Option Slot × Kernel :=
  let ctx := if due.2.2 then { frame with elr := frame.elr - 4 } else frame
  parkAndPickLocked (tellTracer (k.set i (stopped due.1 due.2.1 ctx)) i due.2.1) cpu now i

/-- A blocking call parks the Esper. -/
def parkFor (k : Kernel) (cpu : Cpu) (now : Nat) (i : Slot) (frame : Ctx) (w : Wait) :
    Option Slot × Kernel :=
  let k := k.set i (w.record (saveCtx (k.espers i) (w.saved frame)))
  if w.looks then parkAndPick k cpu now i else parkAndPickLocked k cpu now i

/-- A fault that cannot be handled. -/
def fatalFault (k : Kernel) (cpu : Cpu) (now : Nat) (i : Slot) : Option Slot × Kernel :=
  if (k.espers i).mm.isSome then groupExitAndPick k cpu now i (k.espers i).mm (128 + 11)
  else faultAndPick k cpu now i

/-- The ways of giving the CPU away that end in the scheduler loop if there is nobody else to
run. -/
inductive Leave where
  | park (w : Wait)
  | stop (s : Stop)
  | groupExit (code : Int)
  | fault

/-- The section in which the Esper gives the CPU away, or nothing if it does not after all. -/
def Leave.run (k : Kernel) (cpu : Cpu) (now : Nat) (i : Slot) (frame : Ctx) :
    Leave → Option (Option Slot × Kernel)
  | .park w => if w.parks k i then some (parkFor k cpu now i frame w) else none
  | .stop s => (s.due (k.espers i)).map (mentalOutStop k cpu now i frame)
  | .groupExit code =>
    if (k.espers i).mm.isSome then some (groupExitAndPick k cpu now i (k.espers i).mm code)
      else none
  | .fault => some (fatalFault k cpu now i)

/-- The end of the dispatcher comes after it. -/
def Leave.hooks (e : Esper) : Leave → Bool
  | .park w => w.dispatched e
  | _ => false

/-! ## Cloning -/

/-- What `linux_clone` and the native `fork` give the child of `p`: `mm` is the copy of the address
space, a thread shares the parent's. -/
def cloneInto (c p : Esper) (i : Slot) (vm : Bool) (mm : Option Nat) (ctx : Ctx) : Esper :=
  { c with
    abi := p.abi
    pgrp := if p.abi = .linux then p.pgrp else c.pgrp
    mm := if vm then p.mm else mm
    isThread := vm
    parent := some i
    started := true
    ctx := ctx
    sigHandler := if p.abi = .linux then p.sigHandler else c.sigHandler
    sigRestorer := if p.abi = .linux then p.sigRestorer else c.sigRestorer }

/-- The result of a `clone` or `fork` that fails. -/
def cloneError (p : Esper) (errno : UInt64) : UInt64 := if p.abi = .linux then 0 - errno else 0 - 1

/-- The parent waits for the child to exec or to end. -/
def vforkWait (p : Esper) (frame : Ctx) (pid : Nat) : Esper :=
  { p with
    ctx := frame.setX0 (UInt64.ofNat pid)
    ipcWaitKind := .vforkDone
    ipcWaitId := some pid }

/-- The parent waits no longer. -/
def endVforkWait (p : Esper) : Esper := { p with ipcWaitKind := .none, ipcWaitId := none }

/-- The registers a child starts with: the parent's, with a stack and a thread pointer of its own if
the call gives them. -/
def childCtx (frame : Ctx) (sp tls : Option UInt64) : Ctx :=
  { frame.setX0 0 with sp := sp.getD frame.sp, tpidr := tls.getD frame.tpidr }

/-! ## One step of a CPU -/

inductive Event where
  /-- the kernel's own shell creates a process -/
  | spawn (abi : Abi) (mm : Option Nat) (ctx : Ctx)
  /-- the scheduler loop -/
  | pick (now : Nat)
  | enter
  /-- `kill_corrupt_esper` -/
  | guard
  /-- instructions at EL0 -/
  | compute (ctx : Ctx)
  | trap
  /-- `esper_preempt` -/
  | tick (now : Nat)
  | quiet (q : Quiet)
  | own (o : Own)
  | leave (l : Leave) (now : Nat)
  /-- the native `yield` and `wait` -/
  | yield (now : Nat)
  | waitKeep (statusPtr : UInt64) (now : Nat)
  /-- `exit_and_schedule` -/
  | beginExit (code : Int)
  | exit (now : Nat)
  /-- the native `kill` of the caller itself -/
  | killSelf (sig : Nat)
  | pickNext (now : Nat)
  | clone (vm vfork : Bool)
  | abandon
  | publish (mm : Option Nat) (sp tls : Option UInt64) (now : Nat)
  /-- `esper_set_running` after the hand-off -/
  | unstrand
  /-- the end of the trap -/
  | ret (now : Nat)

/-- `deliver_pending_status`, of which only the record is left here -/
def deliverPendingStatus (e : Esper) : Esper :=
  if e.hasPendingStatus then
    { e with
      hasPendingStatus := false, waitStatusPtr := 0, waitStatusIsLinux := false, waitStatusIsStop :=
        false }
  else e

def setActive (k : Kernel) (c : Cpu) (n : Option Slot) : Kernel :=
  { k with active := update k.active c n }

/-- The kernel before it has created anything. -/
def boot : Machine := {}

variable (m : Machine)

namespace Machine

/-- The kernel moves on and the CPU with it; it holds the same registers. -/
def move (c : Cpu) (k : Kernel) (mode : Mode) : Machine :=
  { m with kernel := k, mode := update m.mode c mode }

def setFrame (c : Cpu) (frame : Ctx) : Machine :=
  { m with frame := update m.frame c frame }

/-- `load_ctx`, and what `run_one_esper` and `esper_preempt` do in its place -/
def load (c : Cpu) (k : Kernel) (n : Slot) (mode : Mode) : Machine :=
  { kernel := setActive (k.set n
    { deliverPendingStatus (k.espers n) with started := true }) c (some n)
    mode := update m.mode c mode
    live := update m.live c (some n)
    frame := update m.frame c (k.espers n).ctx }

/-- `leave_user` -/
def leaveUser (c : Cpu) (k : Kernel) : Machine :=
  { kernel := setActive k c none
    mode := update m.mode c .idle
    live := update m.live c none
    frame := m.frame }

/-- Whoever was picked is loaded; if nobody was, the CPU goes back to its loop. -/
def go (c : Cpu) (mode : Mode) : Option Slot × Kernel → Machine
  | (some n, k) => m.load c k n mode
  | (none, k) => m.leaveUser c k

/-- The child gets its fields, and is ready, or gets the CPU. -/
def publishChild (c : Cpu) (i child : Slot) (vm vfork : Bool) (mm : Option Nat)
    (sp tls : Option UInt64) (now : Nat) : Machine :=
  let child' := cloneInto (m.kernel.espers child) (m.kernel.espers i) i vm mm
    (childCtx (m.frame c) sp tls)
  let k := m.kernel.set child child'
  if vfork then
    match vforkHandoff (k.set i (vforkWait (k.espers i) (m.frame c) child'.pid)) c now i child with
    | (some n, k) => m.load c k n (.switched i false)
    | (none, k) => m.move c k (.stranded i child)
  else
    (m.move c (esperMakeReady k child) (.kernel i)).setFrame c
      ((m.frame c).setX0 (UInt64.ofNat child'.pid))

/-- The stop that the end of the Linux dispatcher finds due. -/
def hookDue (e : Esper) : Option (Esper × Nat × Bool) :=
  match Stop.exit.due e with
  | some due => some due
  | none => Stop.pending.due e

/-- The trap returns: to EL0, if the end of the dispatcher does not stop the Esper it began with. -/
def endTrap (c : Cpu) (old : Slot) (hooks : Bool) (now : Nat) : Machine :=
  match (if hooks then hookDue (m.kernel.espers old) else none) with
  | some due => m.go c (.switched old false) (mentalOutStop m.kernel c now old (m.frame c) due)
  | none => m.move c m.kernel .user

/-- In the scheduler loop; CPU 0 begins each scan at the start of the table. -/
def stepIdle (c : Cpu) : Event → Machine
  | .spawn abi mm ctx =>
    match esperCreate m.kernel with
    | (some n, k) => m.move c (esperMakeReady (k.set n (loadImage (k.espers n) abi mm ctx)) n) .idle
    | (none, _) => m
  | .pick now =>
    match pickAndClaim m.kernel c now (if c.val = 0 then none else m.kernel.running c) with
    | (some n, k) => m.move c k (.claimed n)
    | (none, k) => m.move c k .idle
  | _ => m

def stepClaimed (c : Cpu) (n : Slot) : Event → Machine
  | .enter => m.load c m.kernel n .user
  | .guard => m.leaveUser c (faultCurrent m.kernel c n)
  | _ => m

/-- `esper_preempt_and_pick` from a tick or from `yield`, once the context is saved -/
def stepAside (c : Cpu) (now : Nat) (i : Slot) (frame : Ctx) : Machine :=
  match preemptAndPick (m.kernel.set i (saveCtx (m.kernel.espers i) frame)) c now i with
  | (some n, k) => m.load c k n (.switched i false)
  | (none, k) => (m.move c k (.kernel i)).setFrame c frame

/-- At EL0; a trap takes its index from `g_running`. -/
def stepUser (c : Cpu) : Event → Machine
  | .compute ctx => m.setFrame c ctx
  | .trap =>
    match m.kernel.running c with
    | some i => m.move c m.kernel (.kernel i)
    | none => m
  | .tick now =>
    match m.kernel.running c with
    | some i => m.stepAside c now i (m.frame c)
    | none => m
  | _ => m

/-- The native `wait`, when there is no child to reap but one to wait for -/
def waitKeep (c : Cpu) (i : Slot) (statusPtr : UInt64) (now : Nat) : Machine :=
  let me := { saveCtx (m.kernel.espers i) (m.frame c) with waitStatusPtr := statusPtr }
  match parkAndPickKeep (m.kernel.set i me) c now i with
  | (some n, k) => m.load c k n (.switched i false)
  | (none, k) => (m.move c k (.kernel i)).setFrame c ((m.frame c).setX0 (0 - 1))

/-- In a trap of the Esper at `i`. -/
def stepKernel (c : Cpu) (i : Slot) : Event → Machine
  | .own o =>
    let r := o.run m.kernel (m.frame c) i
    (m.move c r.1 (.kernel i)).setFrame c r.2
  | .leave l now =>
    match l.run m.kernel c now i (m.frame c) with
    | some r => m.go c (.switched i (l.hooks (m.kernel.espers i))) r
    | none => m
  | .yield now => m.stepAside c now i ((m.frame c).setX0 0)
  | .waitKeep statusPtr now => m.waitKeep c i statusPtr now
  | .beginExit code =>
    m.move c (ipcWake m.kernel .vforkDone (some (m.kernel.espers i).pid)) (.exiting i code)
  | .killSelf sig =>
    if (m.kernel.espers i).abi = .index then m.move c (fortis931Kill m.kernel i sig).2
      (.killedSelf i)
    else m
  | .clone vm vfork =>
    match esperCreate m.kernel with
    | (some child, k) => m.move c k (.cloning i child vm vfork)
    | (none, _) => m.setFrame c ((m.frame c).setX0 (cloneError (m.kernel.espers i) 11))
  | .ret _ => m.move c m.kernel .user
  | _ => m

def stepCloning (c : Cpu) (i child : Slot) (vm vfork : Bool) : Event → Machine
  | .abandon =>
    (m.move c (m.kernel.set child ((m.kernel.espers child).become .free)) (.kernel i)).setFrame c
      ((m.frame c).setX0 (cloneError (m.kernel.espers i) 12))
  | .publish mm sp tls now => m.publishChild c i child vm vfork mm sp tls now
  | _ => m

/-- The parent goes on although its child has not run. -/
def unstrand (c : Cpu) (i child : Slot) : Machine :=
  (m.move c (setRunning (m.kernel.set i (endVforkWait (m.kernel.espers i))) c i)
    (.kernel i)).setFrame c ((m.frame c).setX0 (UInt64.ofNat (m.kernel.espers child).pid))

/-- What the CPU does next.  An event that does not fit its mode does nothing. -/
def step (c : Cpu) : Event → Machine
  | .quiet q => m.move c (q.run m.kernel) (m.mode c)
  | e =>
    match m.mode c with
    | .idle => m.stepIdle c e
    | .claimed n => m.stepClaimed c n e
    | .user => m.stepUser c e
    | .kernel i => m.stepKernel c i e
    | .cloning i child vm vfork => m.stepCloning c i child vm vfork e
    | .stranded i child =>
      match e with
      | .unstrand => m.unstrand c i child
      | _ => m
    | .exiting i code =>
      match e with
      | .exit now =>
        m.go c (.switched i ((m.kernel.espers i).abi = .linux)) (exitAndPick m.kernel c now i code)
      | _ => m
    | .killedSelf i =>
      match e with
      | .pickNext now => m.go c (.switched i false) (pickAndClaim m.kernel c now (some i))
      | _ => m
    | .switched old hooks =>
      match e with
      | .ret now => m.endTrap c old hooks now
      | _ => m

/-- A run: which CPU does what, in the order in which it happens. -/
abbrev run : Machine → List (Cpu × Event) → Machine := Traces.run fun m s => m.step s.1 s.2

/-- The property holds in every state of the run. -/
abbrev Always (P : Machine → Prop) : Machine → List (Cpu × Event) → Prop :=
  Traces.Always (fun m s => m.step s.1 s.2) P

/-- The property holds of every step of the run. -/
abbrev EachStep (P : Machine → Cpu → Event → Prop) : Machine → List (Cpu × Event) → Prop :=
  Traces.EachStep (fun m s => m.step s.1 s.2) fun m s => P m s.1 s.2

end Machine

end IndexOS.Espers
