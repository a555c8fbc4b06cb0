import Mathlib.Algebra.GroupWithZero.Nat
import Mathlib.Data.Fintype.Card
import IndexOS.Lib.Traces

/-!
# The kernel's own threads

`misaka_network.cpp`: a fixed table of Sisters, the Sister each CPU runs, and the critical sections
of `g_sched_lock` in which they change.  The lock is held across the context switch, so that a
section is one step although another Sister finishes it.

* `Sister`, `Network` — `g_sisters` and `g_percpu`;
* `bestLevel`, `pickNext`, `switchTo` — a Sister of the highest level among those that are ready,
  the next one after the given place; if none is ready, the Sister that was running goes on;
* `spawn`, `becomeIdle`, `yield`, `sleep`, `blockCurrentLocked`, `unblockLocked`, `wakeDueSleepers`,
  `resched`, `sisterFinish`, `levelUpper`, `levelRestore` — the sections;
* `Event`, `step` — what one CPU does next.

Of the saved context only whether it is that of an idle loop is kept.  The loops of `idle_entry` and
of `become_idle` neither sleep nor block nor return, so that those events do nothing there.
-/

set_option autoImplicit false

namespace IndexOS.Misaka

def kMaxSisters : Nat := 24

/-- An index of `g_sisters`. -/
abbrev Id := Fin kMaxSisters

instance : NeZero kMaxSisters := ⟨by decide⟩

def kMaxCpus : Nat := 8

abbrev Cpu := Fin kMaxCpus

instance : NeZero kMaxCpus := ⟨by decide⟩

def kLevelIdle : Nat := 0

def kLevelDefault : Nat := 2

def kLevelShell : Nat := 5

/-- `State` -/
inductive SisterState where
  | free
  | ready
  | running
  | sleeping
  | blocked
  | dead
deriving DecidableEq

structure Sister where
  state : SisterState := .free
  baseLevel : Nat := kLevelDefault
  level : Nat := kLevelDefault
  owner : Cpu := ⟨0, by decide⟩
  wakeAt : Nat := 0
  /-- it runs an idle loop -/
  idle : Bool := false

structure Network where
  sisters : Id → Sister := fun _ => {}
  /-- `g_percpu[cpu].current` -/
  current : Cpu → Id := fun _ => ⟨0, by decide⟩
  online : Cpu → Bool := fun _ => false

variable (m : Network)

namespace Network

def set (i : Id) (s : Sister) : Network :=
  { m with sisters := Function.update m.sisters i s }

/-- The Sister is in another state. -/
def become (i : Id) (s : SisterState) : Network := m.set i { m.sisters i with state := s }

/-! ## Picking -/

/-- One turn of the first loop of `pick_next` -/
def betterLevel (best : Int) (i : Id) : Int :=
  if (m.sisters i).state = .ready ∧ best < (m.sisters i).level then (m.sisters i).level else best

/-- The first loop of `pick_next` -/
def bestLevel : Int := (List.finRange kMaxSisters).foldl m.betterLevel (-1)

/-- The places after the given one, in turn; it comes last itself. -/
def scanFrom (start : Id) : List Id :=
  (List.finRange kMaxSisters).map fun s =>
  ⟨(start.val + s.val + 1) % kMaxSisters, Nat.mod_lt _ (by decide)⟩

/-- `pick_next` -/
def pickNext (start : Id) : Id :=
  if m.bestLevel < 0 then start
  else
    ((scanFrom start).find? fun i =>
      (m.sisters i).state = .ready ∧ ((m.sisters i).level : Int) = m.bestLevel).getD start

/-- `switch_to` -/
def switchTo (cpu : Cpu) (next : Id) : Network :=
  let m' := m.set next { m.sisters next with state := .running, owner := cpu }
  if next = m.current cpu then m' else { m' with current := Function.update m.current cpu next }

/-- `switch_to(pick_next(current))` -/
def switchAway (cpu : Cpu) : Network := m.switchTo cpu (m.pickNext (m.current cpu))

/-! ## The sections -/

/-- `alloc_slot` -/
def allocSlot : Option Id :=
  (List.finRange kMaxSisters).find? fun i => (m.sisters i).state = .free

/-- `spawn`; `idle` if the entry is `idle_entry`. -/
def spawn (level : Nat) (idle : Bool) : Network :=
  match m.allocSlot with
  | none => m
  | some i =>
    m.set i { m.sisters i with
      state := .ready, baseLevel := level, level := level, owner := ⟨0, by decide⟩, idle := idle }

/-- `become_idle` -/
def becomeIdle (cpu : Cpu) : Network :=
  let m' :=
    match m.allocSlot with
    | none => m
    | some i =>
      { m.set i { m.sisters i with
          state := .running, owner := cpu, baseLevel := kLevelIdle, level := kLevelIdle, idle :=
            true } with
        current := Function.update m.current cpu i }
  { m' with online := Function.update m'.online cpu true }

/-- The Sister that the CPU runs. -/
def mine (cpu : Cpu) : Sister := m.sisters (m.current cpu)

/-- The running Sister can be picked again. -/
def demote (cpu : Cpu) : Network :=
  if (m.mine cpu).state = .running then m.become (m.current cpu) .ready else m

/-- `misaka_network_yield` -/
def yield (cpu : Cpu) : Network := (m.demote cpu).switchAway cpu

/-- `misaka_network_sleep`, at the beat `now` -/
def sleep (cpu : Cpu) (ticks now : Nat) : Network :=
  (m.set (m.current cpu) { m.mine cpu with wakeAt := (now + ticks) % 2 ^ 64, state :=
    .sleeping }).switchAway cpu

/-- `misaka_network_block_current_locked` -/
def blockCurrentLocked (cpu : Cpu) : Network :=
  (m.become (m.current cpu) .blocked).switchAway cpu

/-- `misaka_network_unblock_locked` -/
def unblockLocked (i : Id) : Network :=
  if (m.sisters i).state = .blocked then m.become i .ready else m

/-- `wake_due_sleepers` -/
def wakeDueSleepers (now : Nat) : Network :=
  { m with sisters := fun i =>
      if (m.sisters i).state = .sleeping ∧ (m.sisters i).wakeAt ≤ now then
        { m.sisters i with state := .ready }
      else m.sisters i }

/-- `resched` -/
def resched (cpu : Cpu) (now : Nat) : Network :=
  ((m.wakeDueSleepers now).demote cpu).switchAway cpu

/-- `sister_finish` -/
def sisterFinish (cpu : Cpu) : Network := (m.become (m.current cpu) .dead).switchAway cpu

/-- `misaka_network_level_upper` -/
def levelUpper (i : Id) (level : Nat) : Network :=
  if (m.sisters i).level < level then m.set i { m.sisters i with level := level } else m

/-- `misaka_network_level_restore` -/
def levelRestore (i : Id) : Network :=
  m.set i { m.sisters i with level := (m.sisters i).baseLevel }

end Network

/-- `misaka_network_init` -/
def init : Network :=
  (Network.set
    { online := Function.update (fun _ => false) ⟨0, by decide⟩ true } ⟨0, by decide⟩
    { state := .running, baseLevel := kLevelShell, level := kLevelShell }).spawn kLevelIdle true

/-! ## One step of a CPU -/

inductive Event where
  | spawn (level : Nat)
  | becomeIdle
  | yield
  | sleep (ticks now : Nat)
  | block
  | unblock (i : Id)
  /-- the timer -/
  | resched (now : Nat)
  | finish
  | levelUpper (i : Id) (level : Nat)
  | levelRestore (i : Id)
deriving DecidableEq

namespace Network

/-- The CPU runs a Sister that may sleep, block and return. -/
def works (cpu : Cpu) : Bool := ¬ (m.mine cpu).idle

/-- What the CPU does next: one that is not up yet comes up, and comes up once. -/
def step (e : Cpu × Event) : Network :=
  match m.online e.1, e.2 with
  | false, .becomeIdle => m.becomeIdle e.1
  | false, _ => m
  | true, .spawn level => m.spawn level false
  | true, .becomeIdle => m
  | true, .yield => m.yield e.1
  | true, .sleep ticks now => if m.works e.1 then m.sleep e.1 ticks now else m
  | true, .block => if m.works e.1 then m.blockCurrentLocked e.1 else m
  | true, .unblock i => m.unblockLocked i
  | true, .resched now => m.resched e.1 now
  | true, .finish => if m.works e.1 then m.sisterFinish e.1 else m
  | true, .levelUpper i level => m.levelUpper i level
  | true, .levelRestore i => m.levelRestore i

end Network

end IndexOS.Misaka
