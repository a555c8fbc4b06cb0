import IndexOS.Esper.Table

/-!
# The critical sections

What the kernel does while it holds `g_esper_lock`, one function for each section of `esper.cpp`,
`fortis931.cpp`, and of the parts of `usermode.cpp` and `linux_abi.cpp` that take the lock
themselves. The CPU that holds the lock, the counter it reads and anything it looks at outside the
table are arguments.

* picking: `pickAndClaim`, `parkAndPick`, `parkAndPickLocked`, `parkAndPickKeep`, `preemptAndPick`,
  `setRunning`, `vforkHandoff`;
* creating: `esperCreate`, `esperMakeReady`;
* waking: `ipcWake`, `wakePipe`, `wakeSleepers`;
* signals: `deliverSignalLocked`, `prepInterruptWait`, `killOneLocked`, `fortis931Kill`,
  `fortis931KillPgrp`;
* ending: `maybeWakeParent`, `detachTracees`, `exitAndPick`, `groupExitAndPick`, `faultAndPick`,
  `faultCurrent`.
-/

set_option autoImplicit false

namespace IndexOS.Espers

open Descriptors (kMaxEspers)

/-! ## Signals -/

/-- `kNonmaskable`: SIGKILL and SIGSTOP. -/
def kNonmaskable : Sigset := sigBit 9 ||| sigBit 19

def kSpsrEl0Handler : UInt64 := 0x340

/-- `-EINTR` in a register -/
def eintr : UInt64 := 0 - 4

/-- The context in which the handler of the signal starts, in place of the interrupted one. -/
def handlerCtx (e : Esper) (sig : Nat) (interrupted : Ctx) : Ctx :=
  let base := (interrupted.sp - 0x600) &&& (0 - 16)
  { interrupted with
    regs := fun r =>
      if r = 0 then UInt64.ofNat sig
      else if r = 1 then base
      else if r = 2 then base + 128
      else if r = 30 then e.sigRestorer sig
      else 0
    sp := base
    elr := e.sigHandler sig
    spsr := kSpsrEl0Handler }

/-- What `linux_deliver_signal_locked` did: whether it returned true, the Esper after it and, where
it was given the live trap frame, the frame after it. -/
structure Delivery where
  ok : Bool
  esper : Esper
  frame : Option Ctx

/-- The tracer hears of the signal first: the Esper is traced, the signal is not SIGKILL and not the
one the tracer has just sent on. -/
def intercepted (e : Esper) (sig : Nat) : Bool :=
  e.ptraceTracer.isSome ∧ sig ≠ 9 ∧ e.ptraceInjectSig ≠ sig

/-- The signal gets past the tracer, which it does once. -/
def passTracer (e : Esper) (sig : Nat) : Esper :=
  if e.ptraceTracer.isSome ∧ sig ≠ 9 then { e with ptraceInjectSig := 0 } else e

/-- A signal ends an `rt_sigsuspend`. -/
def endSuspend (e : Esper) : Esper :=
  if e.waitSigsuspend then
    { e with
      sigMask := e.sigsuspendSavedMask
      waitSigsuspend := false
      state := if e.state = .waiting then .ready else e.state }
  else e

/-- What a signal does to the Esper that the tracer does not keep from it, before its disposition is
looked at. -/
def accepted (e : Esper) (sig : Nat) : Esper := endSuspend (passTracer e sig)

/-- The mask holds the signal back; a signal that ends an `rt_sigsuspend` is not held back. -/
def heldBack (e : Esper) (sig : Nat) : Bool :=
  ¬ e.waitSigsuspend ∧ ¬ kNonmaskable.has sig ∧ e.sigMask.has sig

/-- `linux_deliver_signal_locked`.  `stackOk` says whether the signal frame can be written below the
stack pointer. -/
def deliverSignalLocked (e : Esper) (sig : Nat) (frame : Option Ctx) (stackOk : Bool) : Delivery :=
  if e.abi ≠ .linux ∨ sig = 0 ∨ 64 ≤ sig then ⟨false, e, frame⟩
  else if intercepted e sig then
    ⟨true, { e with
      ptracePendingStop := if e.ptracePendingStop = 0 then sig else e.ptracePendingStop
      sigPending := e.sigPending ||| sigBit sig }, frame⟩
  else if heldBack e sig then
    ⟨true, { accepted e sig with sigPending := e.sigPending ||| sigBit sig }, frame⟩
  else if e.sigHandler sig = 0 ∨ e.sigHandler sig = 1 then ⟨false, accepted e sig, frame⟩
  else
    match frame with
    | none => ⟨true, { accepted e sig with sigPending := e.sigPending ||| sigBit sig }, none⟩
    | some live =>
      if ¬ stackOk then ⟨false, accepted e sig, frame⟩
      else
        ⟨true, { accepted e sig with
            sigMask := ((accepted e sig).sigMask ||| e.sigActMask sig ||| sigBit sig) &&&
              ~~~kNonmaskable },
          some (handlerCtx e sig live)⟩

/-- `linux_deliver_signal_locked` with no frame: at most recorded, for its own CPU to act on. -/
def postSignal (e : Esper) (sig : Nat) : Esper := (deliverSignalLocked e sig none true).esper

/-- `prep_interrupt_wait_locked` -/
def prepInterruptWait (e : Esper) : Esper :=
  if e.state = .waiting then
    { e with
      ctx := e.ctx.setX0 eintr
      ipcWaitKind := .none
      ipcWaitId := none
      waitPipeIdx := none
      wakeCntpct := 0
      state := .ready }
  else e

/-! ## Waking -/

variable (k : Kernel)

/-- `wake_sleepers_locked` at the time `now` -/
def wakeSleepers (now : Nat) : Kernel :=
  k.mapEspers fun e =>
    if e.state = .waiting ∧ e.wakeCntpct ≠ 0 ∧ e.wakeCntpct ≤ now then
      { e with wakeCntpct := 0, state := .ready }
    else e

/-- `ipc_wake_impl`; the identifier is absent where the source passes -1. -/
def ipcWake (kind : IpcWaitKind) (id : Option Nat) : Kernel :=
  k.mapEspers fun e =>
    if e.state = .waiting ∧ ((e.ipcWaitKind = kind ∧ (id = none ∨ e.ipcWaitId = id)) ∨
        (kind ≠ .pollWait ∧ e.ipcWaitKind = .pollWait)) then
      { e with ipcWaitKind := .none, ipcWaitId := none, state := .ready }
    else e

/-- `wake_pipe_readers` and `wake_pipe_writers` -/
def wakePipe (i : Nat) (writers : Bool) : Kernel :=
  k.mapEspers fun e =>
    if e.state = .waiting ∧ ((e.waitPipeIdx = some i ∧ e.waitPipeIsWrite = writers) ∨
        e.ipcWaitKind = .pollWait) then
      { e with waitPipeIdx := none, ipcWaitKind := .none, ipcWaitId := none, state := .ready }
    else e

/-! ## Picking -/

/-- `running_somewhere_locked` -/
def runningSomewhere (i : Slot) : Bool := ∃ c : Cpu, k.running c = some i

/-- A CPU may claim the Esper. -/
def claimable (i : Slot) : Bool := (k.espers i).state = .ready ∧ ¬ runningSomewhere k i

/-- The order in which the table is searched after an index. -/
def scanAfter (after : Option Slot) : List Slot :=
  (List.finRange kMaxEspers).map fun s =>
    match after with
    | none => s
    | some a => ⟨(a.val + s.val + 1) % kMaxEspers, Nat.mod_lt _ (by decide)⟩

variable (cpu : Cpu)

/-- The Esper runs on this CPU from now on. -/
def claim (i : Slot) : Kernel :=
  (k.set i ((k.espers i).become .running)).setRunningSlot cpu (some i)

/-- `pick_and_claim_locked` -/
def pickAndClaim (now : Nat) (after : Option Slot) : Option Slot × Kernel :=
  if k.onlineCpus ≤ cpu.val then (none, k)
  else
    let k := if cpu.val = 0 then wakeSleepers k now else k
    match (scanAfter after).find? (claimable k) with
    | some i => (some i, claim k cpu i)
    | none => (none, k)

/-- `clear_running_slot_locked` -/
def clearRunningSlot (i : Slot) : Kernel :=
  if k.running cpu = some i then k.setRunningSlot cpu none else k

/-- The Esper waits, and its CPU has claimed none. -/
def park (i : Slot) : Kernel :=
  clearRunningSlot (k.set i ((k.espers i).become .waiting)) cpu i

/-- `esper_park_and_pick` -/
def parkAndPick (now : Nat) (i : Slot) : Option Slot × Kernel :=
  pickAndClaim (if (k.espers i).state = .running then park k cpu i else k) cpu now (some i)

/-- `esper_park_and_pick_locked` -/
def parkAndPickLocked (now : Nat) (i : Slot) : Option Slot × Kernel :=
  pickAndClaim (park k cpu i) cpu now (some i)

/-- `esper_park_and_pick_keep` -/
def parkAndPickKeep (now : Nat) (i : Slot) : Option Slot × Kernel :=
  match pickAndClaim (park k cpu i) cpu now (some i) with
  | (some next, k) => (some next, k)
  | (none, k) => (none, claim k cpu i)

/-- `esper_preempt_and_pick` -/
def preemptAndPick (now : Nat) (i : Slot) : Option Slot × Kernel :=
  let k := if cpu.val = 0 then wakeSleepers k now else k
  if k.onlineCpus ≤ cpu.val then (none, k)
  else
    match (scanAfter (some i)).find? fun j => j ≠ i ∧ claimable k j with
    | none => (none, k)
    | some next =>
      let k := if (k.espers i).state = .running then k.set i ((k.espers i).become .ready) else k
      (some next, claim k cpu next)

/-- `esper_set_running` -/
def setRunning (i : Slot) : Kernel := claim k cpu i

/-- `esper_vfork_handoff` -/
def vforkHandoff (now : Nat) (parent child : Slot) : Option Slot × Kernel :=
  let k :=
    if (k.espers child).state = .waiting then k.set child ((k.espers child).become .ready) else k
  let k := if (k.espers parent).state = .running then park k cpu parent else k
  pickAndClaim k cpu now (some parent)

/-! ## Creating -/

/-- `slot_in_use_locked` -/
def slotInUse (i : Slot) : Bool :=
  ∃ c : Cpu, k.running c = some i ∨ k.active c = some i

/-- The slot `esper_create` takes: the first free one, else that of the ended Esper with the lowest
pid. -/
def createSlot : Option Slot :=
  match (List.finRange kMaxEspers).find? fun i => (k.espers i).state = .free ∧ ¬ slotInUse k i with
  | some i => some i
  | none =>
    ((List.finRange kMaxEspers).filter fun i =>
        ((k.espers i).state = .exited ∨ (k.espers i).state = .faulted) ∧ ¬ slotInUse k i).foldl
      (fun best i =>
        match best with
        | none => some i
        | some b => if (k.espers i).pid < (k.espers b).pid then some i else some b) none

/-- `esper_create` -/
def esperCreate : Option Slot × Kernel :=
  match createSlot k with
  | none => (none, k)
  | some i =>
    (some i, { (k.set i { pid := k.nextPid, pgrp := k.nextPid, state := .waiting }) with
      nextPid := k.nextPid + 1 })

/-- `esper_make_ready` -/
def esperMakeReady (i : Slot) : Kernel :=
  if (k.espers i).state = .waiting then k.set i ((k.espers i).become .ready) else k

/-! ## Ending -/

/-- `parent_is_in_wait4_locked` -/
def inWait4 (p : Esper) : Bool :=
  p.state = .waiting ∧ p.waitPipeIdx = none ∧ p.ipcWaitKind = .none ∧ ¬ p.waitFutex ∧
    p.wakeCntpct = 0 ∧ ¬ p.waitSigsuspend

/-- The parent's wait returns the child. -/
def giveStatus (p child : Esper) : Esper :=
  { p with
    ctx := p.ctx.setX0 (UInt64.ofNat child.pid)
    pendingStatus := child.exitCode
    hasPendingStatus := p.waitStatusPtr ≠ 0
    state := .ready }

/-- The SIGCHLD branch of `maybe_wake_parent_locked`: a parent that has a handler stops waiting. -/
def wakeForChild (p : Esper) : Esper :=
  if p.state = .waiting ∧ p.ipcWaitKind ≠ .ptraceStop then
    { p with
      ctx := if p.ipcWaitKind = .pollWait then p.ctx.setX0 eintr else p.ctx
      ipcWaitKind := .none
      ipcWaitId := none
      waitPipeIdx := none
      wakeCntpct := 0
      state := .ready }
  else p

/-- `maybe_wake_parent_locked` for the Esper at `i` -/
def maybeWakeParent (i : Slot) : Kernel :=
  let me := k.espers i
  match me.parent with
  | none => k
  | some j =>
    let p := k.espers j
    if inWait4 p then
      if p.wait4TargetPid ≤ 0 ∨ (me.pid : Int) = p.wait4TargetPid then
        let k := k.set j (giveStatus p me)
        k.set i ((k.espers i).become .free)
      else k
    else if p.sigHandler 17 = 0 ∨ p.sigHandler 17 = 1 then k
    else k.set j (postSignal (wakeForChild p) 17)

/-- `esper_detach_tracees_locked` -/
def detachTracees (tracer : Slot) : Kernel :=
  k.mapEspers fun t =>
    if t.ptraceTracer = some tracer then
      let t := { t with
        ptraceTracer := none, ptracePendingStop := 0, ptraceSyscall := false, ptraceSinglestep :=
          false }
      if t.state = .waiting ∧ t.ipcWaitKind = .ptraceStop then
        { t with
          ptraceStopped := false, ptraceReport := false, ipcWaitKind := .none, ipcWaitId := none
          state := .ready }
      else t
    else t

/-- The Esper has exited with the code, and its CPU has claimed none. -/
def markExited (i : Slot) (code : Int) : Kernel :=
  clearRunningSlot (k.set i { k.espers i with state := .exited, exitCode := code }) cpu i

/-- The Esper ends with the code: its parent is woken and its tracees go free. -/
def endWith (i : Slot) (code : Int) : Kernel :=
  detachTracees (maybeWakeParent (markExited k cpu i code) i) i

/-- `esper_exit_and_pick` -/
def exitAndPick (now : Nat) (i : Slot) (code : Int) : Option Slot × Kernel :=
  pickAndClaim (endWith k cpu i code) cpu now (some i)

/-- One turn of the loop of `esper_group_exit_and_pick` -/
def endMember (mm : Option Nat) (code : Int) (i : Slot) : Kernel :=
  if (k.espers i).dead ∨ (k.espers i).mm ≠ mm then k else endWith k cpu i code

/-- `esper_group_exit_and_pick` -/
def groupExitAndPick (now : Nat) (i : Slot) (mm : Option Nat) (code : Int) :
    Option Slot × Kernel :=
  pickAndClaim ((List.finRange kMaxEspers).foldl (fun k j => endMember k cpu mm code j) k) cpu now
    (some i)

/-- The Esper is faulted, and its CPU has claimed none. -/
def markFaulted (i : Slot) : Kernel :=
  clearRunningSlot (k.set i ((k.espers i).become .faulted)) cpu i

/-- `esper_fault_and_pick` -/
def faultAndPick (now : Nat) (i : Slot) : Option Slot × Kernel :=
  pickAndClaim (detachTracees (markFaulted k cpu i) i) cpu now (some i)

/-- `esper_fault_current` -/
def faultCurrent (i : Slot) : Kernel := markFaulted k cpu i

/-! ## Killing -/

inductive KillAction where
  | delivered
  | killed
  | nothing
deriving DecidableEq

/-- The fatal part of `kill_one_locked`: the Esper has exited, and a parent that waits for anything
but a pipe is taken to wait for it. -/
def killFatal (i : Slot) (sig : Nat) : Kernel :=
  let t := { k.espers i with exitCode := 128 + sig, state := .exited, waitPipeIdx := none }
  let k := k.set i t
  match t.parent with
  | none => k
  | some j =>
    let p := k.espers j
    if p.state = .waiting ∧ p.waitPipeIdx = none ∧ p.ipcWaitKind ≠ .ptraceStop then
      let k := k.set j (giveStatus p t)
      k.set i ((k.espers i).become .free)
    else k

/-- `kill_one_locked` -/
def killOneLocked (i : Slot) (sig : Nat) : KillAction × Kernel :=
  let t := k.espers i
  if t.dead then (.nothing, k)
  else
    let d := deliverSignalLocked t sig none true
    if t.abi = .linux ∧ d.ok then (.delivered, k.set i d.esper)
    else (.killed, killFatal (if t.abi = .linux then k.set i d.esper else k) i sig)

/-- The critical section of `fortis931_kill` -/
def fortis931Kill (i : Slot) (sig : Nat) : KillAction × Kernel :=
  match killOneLocked k i sig with
  | (.killed, k) => (.killed, detachTracees k i)
  | r => r

/-- What the loop of `fortis931_kill_pgrp` does to a member of the group. -/
def killInGroup (i : Slot) (sig : Nat) : Kernel :=
  (fortis931Kill (k.set i (prepInterruptWait (k.espers i))) i sig).2

/-- One turn of that loop -/
def killMember (pgrp sig : Nat) (i : Slot) : Kernel :=
  if (k.espers i).pgrp ≠ pgrp ∨ (k.espers i).dead then k else killInGroup k i sig

/-- The critical section of `fortis931_kill_pgrp` -/
def fortis931KillPgrp (pgrp sig : Nat) : Kernel :=
  if pgrp = 0 then k else (List.finRange kMaxEspers).foldl (fun k i => killMember k pgrp sig i) k

end IndexOS.Espers
