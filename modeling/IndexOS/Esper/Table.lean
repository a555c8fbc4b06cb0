import IndexOS.Descriptors.Tables
import IndexOS.Esper.Basic

/-!
# The table of Espers

`Esper` and the globals of `esper.cpp`: the fixed table of Espers (processes and threads alike), the
Esper each CPU has claimed (`g_running`), the one it is executing (`g_cpu_active_esper`), the cap on
the CPUs that schedule (`g_online_cpus`) and the next pid.

Of an Esper's fields those are kept that the scheduler, the wake-ups, `wait4`, signals and `ptrace`
read or write.  An index or pid that the source gives as -1 when it is absent is an option here.
-/

set_option autoImplicit false

namespace IndexOS.Espers

open Descriptors (kMaxEspers)

def kMaxCpus : Nat := 8

/-- An index of `g_espers`. -/
abbrev Slot := Fin kMaxEspers

abbrev Cpu := Fin kMaxCpus

instance : NeZero kMaxCpus := ⟨by decide⟩

inductive EsperState where
  | free
  | ready
  | running
  | waiting
  | exited
  | faulted
deriving DecidableEq

/-- There are 31 general registers. -/
instance neZeroRegs : NeZero 31 := ⟨by decide⟩

/-- A thread of control at EL0: `regs`, `sp_el0`, `elr`, `spsr`, `tpidr` and `fpsimd`. -/
structure Ctx where
  regs : Fin 31 → UInt64 := fun _ => 0
  sp : UInt64 := 0
  elr : UInt64 := 0
  spsr : UInt64 := 0
  tpidr : UInt64 := 0
  fpsimd : Nat := 0

/-- The first register, which carries the first argument of a system call and its result. -/
def Ctx.x0 (c : Ctx) : UInt64 := c.regs 0

def Ctx.setX0 (c : Ctx) (v : UInt64) : Ctx := { c with regs := Function.update c.regs 0 v }

/-- A set of signals; bit `n - 1` is signal `n`. -/
abbrev Sigset := BitVec 64

def sigBit (sig : Nat) : Sigset := BitVec.twoPow 64 (sig - 1)

/-- The signal is in the set. -/
def Sigset.has (m : Sigset) (sig : Nat) : Bool := m.getLsbD (sig - 1)

inductive Abi where
  | index
  | linux
deriving DecidableEq

structure Esper where
  pid : Nat := 0
  pgrp : Nat := 0
  state : EsperState := .free
  exitCode : Int := 0
  parent : Option Slot := none
  started : Bool := false
  ctx : Ctx := {}
  waitStatusPtr : UInt64 := 0
  hasPendingStatus : Bool := false
  pendingStatus : Int := 0
  waitStatusIsLinux : Bool := false
  waitStatusIsStop : Bool := false
  wait4TargetPid : Int := 0
  isThread : Bool := false
  /-- which `PersonalReality` -/
  mm : Option Nat := none
  waitFutex : Bool := false
  waitFutexPhys : Nat := 0
  waitSigsuspend : Bool := false
  sigsuspendSavedMask : Sigset := 0
  waitPipeIdx : Option Nat := none
  waitPipeIsWrite : Bool := false
  wakeCntpct : Nat := 0
  ipcWaitKind : IpcWaitKind := .none
  ipcWaitId : Option Nat := none
  abi : Abi := .index
  /-- 0 is `SIG_DFL` and 1 is `SIG_IGN` -/
  sigHandler : Nat → UInt64 := fun _ => 0
  sigRestorer : Nat → UInt64 := fun _ => 0
  sigActMask : Nat → Sigset := fun _ => 0
  sigMask : Sigset := 0
  sigPending : Sigset := 0
  ptraceTracer : Option Slot := none
  ptraceStopped : Bool := false
  ptraceReport : Bool := false
  ptraceSysgood : Bool := false
  ptraceStopSig : Nat := 0
  ptracePendingStop : Nat := 0
  ptraceSyscall : Bool := false
  ptraceSinglestep : Bool := false
  ptraceInSyscall : Bool := false
  ptraceInjectSig : Nat := 0

/-- The Esper has ended, or its slot holds none. -/
def Esper.dead (e : Esper) : Bool := e.state = .free ∨ e.state = .exited ∨ e.state = .faulted

/-- The Esper with another state. -/
def Esper.become (e : Esper) (s : EsperState) : Esper := { e with state := s }

structure Kernel where
  espers : Slot → Esper := fun _ => {}
  running : Cpu → Option Slot := fun _ => none
  active : Cpu → Option Slot := fun _ => none
  onlineCpus : Nat := 1
  nextPid : Nat := 1

namespace Kernel

def set (k : Kernel) (i : Slot) (e : Esper) : Kernel :=
  { k with espers := Function.update k.espers i e }

/-- A loop over all Espers that looks at one at a time. -/
def mapEspers (k : Kernel) (f : Esper → Esper) : Kernel :=
    { k with espers := fun i => f (k.espers i) }

def setRunningSlot (k : Kernel) (cpu : Cpu) (i : Option Slot) : Kernel :=
  { k with running := Function.update k.running cpu i }

variable (k : Kernel)

@[simp] theorem set_espers (i j : Slot) (e : Esper) :
    (k.set i e).espers j = if j = i then e else k.espers j := by
  simp [set, Function.update_apply]

theorem set_self (i : Slot) (e : Esper) : (k.set i e).espers i = e := Function.update_self ..

theorem set_of_ne {k : Kernel} {i j : Slot} (h : j ≠ i) (e : Esper) :
    (k.set i e).espers j = k.espers j :=
  Function.update_of_ne h ..

@[simp] theorem set_running (i : Slot) (e : Esper) : (k.set i e).running = k.running := rfl

end Kernel

end IndexOS.Espers
