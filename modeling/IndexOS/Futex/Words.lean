import IndexOS.Esper.Table
import IndexOS.Reality.Runs
import IndexOS.Reality.Standing

/-!
# Futexes

`linux_futex` of `usermode.cpp` over the threads and the memory of all processes.  A thread that
waits is found again by the physical address of its word, which `pr2_user_phys` looks up before the
lock is taken; so a call is two steps, `enter` and `finish`, and between them and between calls the
other threads store, fault, fork and exit.

* `userPhys` — `pr2_user_phys`;
* `futexWakePhys` — the loop that wakes;
* `futexLocked` — what each operation does once the address is known;
* `step` — one event of one thread; an event that is not possible changes nothing.

A thread that dies first stores 0 at its `clear_child_tid` and then wakes one waiter there: that is
a call `FUTEX_WAKE` of one with a store between its two steps.  Waits of other kinds appear as
`park` and the ways they end as `wake`; so does everything that ends a futex wait other than a futex
call: signals, `SIGCHLD`, the exit of a child, an attaching tracer.

Of a thread's wait the source keeps only the physical address.  Which word a thread waits for, in
its own terms, is kept here in `on`; no step reads it.
-/

set_option autoImplicit false

namespace IndexOS.Futex

open Reality
open Descriptors (kMaxEspers)
open Espers (EsperState)
open Reality (Machine SpaceId Files Vma VmaKind)
open TreeDiagram (kPageSize alignDown)

/-! ## Words of memory -/

/-- A word as a process names it. -/
abbrev Word := SpaceId × Nat

/-- The physical address of a word. -/
def physAt (m : Machine) (w : Word) : Option Nat :=
  (mapped m w.1 (slotOf w.2)).map fun f => f * kPageSize + w.2 % kPageSize

/-- The 32 bits at an address, as a process reads them. -/
def wordAt (m : Machine) (w : Word) : Option Nat := do
  let b₀ ← readByte m w.1 w.2
  let b₁ ← readByte m w.1 (w.2 + 1)
  let b₂ ← readByte m w.1 (w.2 + 2)
  let b₃ ← readByte m w.1 (w.2 + 3)
  return b₀ + 256 * (b₁ + 256 * (b₂ + 256 * b₃))

/-- `pr2_user_phys`; the source returns 0 where there is no page. -/
def userPhys (files : Files) (m : Machine) (s : SpaceId) (va : Nat) : Machine × Option Nat :=
  match handleFault files m s va, m.spaces s with
  | (m, true), some sp =>
    let pe := lookupL3 m sp.ttbr0 (alignDown va)
    if Reality.Links pe then (m, some (frameOf pe * kPageSize + va % kPageSize)) else (m, none)
  | (m, _), _ => (m, none)

/-! ## Threads -/

inductive FutexOp where
  | wait (val : Nat)
  | wake (n : Nat)
  | requeue (n m : Nat)
  | cmpRequeue (n m expect : Nat)
deriving DecidableEq

/-- A call whose physical address has been looked up. -/
structure Call where
  va : Nat
  op : FutexOp
  phys : Nat
deriving DecidableEq

abbrev Tid := Fin kMaxEspers

structure Thread where
  space : SpaceId := 0
  state : EsperState := .free
  waitFutex : Bool := false
  waitFutexPhys : Nat := 0
  x0 : Int := 0
  call : Option Call := none
  on : Option Nat := none

structure Sys where
  mem : Machine
  threads : Tid → Thread := fun _ => {}

variable (s : Sys)

namespace Sys

def set (t : Tid) (th : Thread) : Sys :=
  { s with threads := Function.update s.threads t th }

@[simp] theorem set_threads (t u : Tid) (th : Thread) :
    (s.set t th).threads u = if u = t then th else s.threads u := by
  simp [set, Function.update_apply]

end Sys

/-- The thread is blocked in `FUTEX_WAIT` on the word. -/
def Thread.Blocked (th : Thread) (w : Word) : Prop :=
  th.state = .waiting ∧ th.space = w.1 ∧ th.on = some w.2

instance (th : Thread) (w : Word) : Decidable (th.Blocked w) := inferInstanceAs (Decidable (_ ∧ _))

/-! ## Waking -/

/-- The thread is one the loop of `futex_wake_phys` looks for. -/
def Thread.matches (th : Thread) (phys : Nat) : Bool :=
  th.state = .waiting ∧ th.waitFutex ∧ th.waitFutexPhys = phys

def Thread.woken (th : Thread) : Thread :=
  { th with waitFutex := false, waitFutexPhys := 0, state := .ready }

/-- The loop of `futex_wake_phys` over the threads that are left, with the number woken so far. -/
def wakeLoop (phys : Nat) (count : Int) : List Tid → Nat → (Tid → Thread) → (Tid → Thread) × Nat
  | [], woken, ths => (ths, woken)
  | i :: is, woken, ths =>
    if (woken : Int) < count then
      if (ths i).matches phys then
        wakeLoop phys count is (woken + 1) (Function.update ths i (ths i).woken)
      else wakeLoop phys count is woken ths
    else (ths, woken)

/-- `futex_wake_phys` -/
def futexWakePhys (phys : Nat) (count : Int) (ths : Tid → Thread) : (Tid → Thread) × Nat :=
  wakeLoop phys count (List.finRange kMaxEspers) 0 ths

/-- A 32-bit register read as `int` -/
def asInt (n : Nat) : Int :=
    if n % 2 ^ 32 < 2 ^ 31 then (n % 2 ^ 32 : Nat) else (n % 2 ^ 32 : Nat) - 2 ^ 32

/-- A wake of `count`, and its result in the register of the caller. -/
def wakeFrom (t : Tid) (phys : Nat) (count : Int) : Sys :=
  let r := futexWakePhys phys count s.threads
  ({ s with threads := r.1 } : Sys).set t { r.1 t with call := none, x0 := r.2 }

/-- The caller goes on with the result in its register. -/
def answer (t : Tid) (x0 : Int) : Sys := s.set t { s.threads t with call := none, x0 := x0 }

/-- `linux_futex` from where the physical address is known.  The sum of the two counts of a requeue
is an `int`. -/
def futexLocked (t : Tid) (c : Call) : Sys :=
  let th := s.threads t
  let cur := wordAt s.mem (th.space, c.va)
  match c.op with
  | .wake n => wakeFrom s t c.phys (asInt n)
  | .wait val =>
    if cur ≠ some val then answer s t (-11)
    else
      s.set t { th with
        call := none, x0 := 0, waitFutex := true, waitFutexPhys := c.phys, state := .waiting
        on := some c.va }
  | .requeue n m => wakeFrom s t c.phys (asInt (n + m))
  | .cmpRequeue n m expect =>
    if cur ≠ some expect then answer s t (-11) else wakeFrom s t c.phys (asInt (n + m))

/-! ## Events -/

inductive Event where
  /-- address spaces and their regions come from `execve` and `mmap` -/
  | create
  | addVma (s : SpaceId) (start fin : Nat) (prot : UInt8) (kind : VmaKind)
      (fileSrc fileOff fileSize segVaddr : Nat) (filePath : Option (List UInt8))
  /-- a new thread takes a slot -/
  | spawn (t : Tid) (s : SpaceId)
  | fork (t child : Tid)
  | enter (t : Tid) (files : Files) (va : Nat) (op : FutexOp)
  | finish (t : Tid)
  | store (t : Tid) (va : Nat) (b : UInt8)
  | fault (t : Tid) (files : Files) (va : Nat)
  | writeUser (t : Tid) (files : Files) (va : Nat) (b : UInt8)
  | park (t : Tid) (clears : Bool)
  | wake (t : Tid)
  | run (t : Tid)
  | preempt (t : Tid)
  /-- the thread ends, by itself or because it is killed -/
  | exit (t : Tid)

/-- The thread executes its program. -/
def Thread.inUser (th : Thread) : Bool := th.state = .running ∧ th.call.isNone

def Thread.dead (th : Thread) : Bool :=
  th.state = .free ∨ th.state = .exited ∨ th.state = .faulted

def Sys.become (t : Tid) (st : EsperState) : Sys := s.set t { s.threads t with state := st }

def step : Event → Sys
  | .create => { s with mem := Reality.step s.mem .create }
  | .addVma sp start fin prot kind fileSrc fileOff fileSize segVaddr filePath =>
    { s with
      mem := Reality.step s.mem
        (.addVma sp start fin prot kind fileSrc fileOff fileSize segVaddr filePath) }
  | .spawn t sp => if (s.threads t).dead then s.set t { space := sp, state := .ready } else s
  | .fork t child =>
    if (s.threads t).inUser ∧ (s.threads child).dead then
      match fork s.mem (s.threads t).space with
      | (m, some c) => ({ s with mem := m } : Sys).set child { space := c, state := .ready }
      | (m, none) => { s with mem := m }
    else s
  | .enter t files va op =>
    if (s.threads t).inUser then
      match userPhys files s.mem (s.threads t).space va with
      | (m, some phys) =>
        ({ s with mem := m } : Sys).set t { s.threads t with call := some ⟨va, op, phys⟩ }
      | (m, none) => ({ s with mem := m } : Sys).set t { s.threads t with x0 := -14 }
    else s
  | .finish t =>
    match (s.threads t).call with
    | some c => futexLocked s t c
    | none => s
  | .store t va b =>
    if (s.threads t).state = .running then
      { s with mem := store s.mem (s.threads t).space va b }
    else s
  | .fault t files va =>
    if (s.threads t).state = .running then
      { s with mem := (handleFault files s.mem (s.threads t).space va).1 }
    else s
  | .writeUser t files va b =>
    if (s.threads t).state = .running then
      { s with mem := (writeUser files (s.threads t).space va [b] s.mem).1 }
    else s
  | .park t clears =>
    if (s.threads t).inUser then
      s.set t { s.threads t with
        state := .waiting, on := none
        waitFutex := if clears then false else (s.threads t).waitFutex }
    else s
  | .wake t => if (s.threads t).state = .waiting then s.become t .ready else s
  | .run t => if (s.threads t).state = .ready then s.become t .running else s
  | .preempt t => if (s.threads t).inUser then s.become t .ready else s
  | .exit t =>
    if ¬ (s.threads t).dead ∧ (s.threads t).call.isNone then s.become t .exited else s

end IndexOS.Futex
