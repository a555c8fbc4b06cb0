import IndexOS.Esper.Endings
import IndexOS.Lib.Traces

/-!
# A child that is being built

`linux_clone` creates a child, fills its fields one after the other and makes it ready at the end. 
In between the slot is in the table like any other: it waits, with nothing that it waits for, and
this is what keeps the scheduler from it.  But a process group is interrupted whatever its members
wait for, and who waits for nothing in particular is taken to wait for a child.  So the hiding place
is not safe: a group kill makes the half-built child ready, and so does the end of an Esper whose
parent had the slot before.

Here `linux_clone` takes one step for each of its assignments, and other CPUs pick, wake, kill and
end Espers in between.

* `assign` — the assignments of `linux_clone`, in their order;
* `CloneSystem` — the kernel, what else an Esper has, the calls of `linux_clone` in progress, and
  what each CPU has yet to release;
* `Action`, `CloneSystem.step` — what a CPU does next;
* `Whole` — no CPU has claimed a child before it was ready; a child was as `linux_clone` made it
  when it first ran; and of a child that was killed meanwhile every reference has been dropped once;
* `Gentle` — the condition on a step under which this is kept, see `IndexOS.Esper.HalfBuilt`.

A kill closes the descriptors of whom it ends and nothing else: the reference to the address space
and those to the images stay.  Only the loops behind `exit_group` and a fatal fault drop these as
well.
-/

set_option autoImplicit false

namespace IndexOS.Espers

open Function (update)
open Descriptors (kMaxEspers kMaxFds Fd Obj)

/-! ## What `linux_clone` builds -/

/-- What an Esper has besides the fields of `Esper`: its images, its user and group ids, the flags
of its signal handlers and its descriptors. -/
structure Estate where
  images : Option Nat × Option Nat := (none, none)
  ids : Fin 6 → Nat := fun _ => 0
  sigFlags : Nat → Nat := fun _ => 0
  fds : Nat → Fd := fun n => { kind := if n < 3 then .console else .closed }

/-- Something an Esper has a reference to. -/
inductive Ref where
  | space (m : Nat)
  | image (n : Nat)
  | object (o : Obj)
deriving DecidableEq

/-- `linux_clone` copies descriptors of these kinds without taking a reference. -/
def copiedBare (f : Fd) : Bool := f.kind = .timerfd ∨ f.kind = .signalfd ∨ f.kind = .inotify

/-- The reference a descriptor stands for. -/
def heldRef (f : Fd) : List Ref := (f.names.map Ref.object).toList

/-- The reference `linux_clone` takes for a descriptor that it copies. -/
def fdRef (f : Fd) : List Ref := if copiedBare f then [] else heldRef f

/-- The references that go with the address space and the images. -/
def spaceRefs (mm : Option Nat) (images : Option Nat × Option Nat) : List Ref :=
  (mm.map Ref.space).toList ++ (images.1.map Ref.image).toList ++ (images.2.map Ref.image).toList

/-- A call of `linux_clone` that has created its child. -/
structure Cloning where
  parent : Slot
  child : Slot
  pid : Nat
  vm : Bool
  /-- the copy of the address space, for a child that is no thread -/
  mm : Option Nat
  /-- the registers the child is to start with -/
  ctx : Ctx
  /-- how many of the assignments have been made -/
  done : Nat := 0
  /-- the child as the call has made it so far -/
  made : Esper × Estate
  /-- the references taken for the child, and those that others have dropped for it -/
  taken : List Ref := []
  dropped : List Ref := []

/-- The assignments of `linux_clone`, in their order, for a child of `p` at `i`. -/
def assign (p : Esper) (t : Estate) (κ : Cloning) : Nat → Esper × Estate → Esper × Estate
  | 0, (c, u) =>
    ({ c with mm := if κ.vm then p.mm else κ.mm, isThread := κ.vm }, { u with images := t.images })
  | 1, (c, u) => ({ c with abi := .linux, pgrp := p.pgrp }, u)
  | 2, (c, u) => (c, { u with ids := t.ids })
  | 3, (c, u) =>
    ({ c with sigHandler := p.sigHandler, sigRestorer := p.sigRestorer },
      { u with sigFlags := t.sigFlags })
  | 4, (c, u) => ({ c with parent := some κ.parent }, u)
  | 5, (c, u) => ({ c with ctx := κ.ctx, started := true }, u)
  | n + 6, (c, u) => (c, { u with fds := update u.fds n (t.fds n) })

/-- The references that an assignment takes. -/
def assignRefs (p : Esper) (t : Estate) (κ : Cloning) : Nat → List Ref
  | 0 => spaceRefs (if κ.vm then p.mm else κ.mm) t.images
  | n + 6 => fdRef (t.fds n)
  | _ => []

/-- There are six assignments before the descriptors, which are copied one by one. -/
def kAssignments : Nat := 6 + kMaxFds

/-- A call of `linux_clone` that is over: whether the child had been killed by then, the references
taken for it and those dropped for it. -/
structure FinishedClone where
  killed : Bool
  taken : List Ref
  dropped : List Ref

/-! ## The system -/

/-- What a CPU that has ended an Esper has yet to release: its descriptors, and after the end of a
group of threads with the address space `mm` that space and the images, too. -/
structure Duty where
  slot : Slot
  /-- `mm`, and whether an Esper that has been reaped is passed over, as after a fatal fault -/
  image : Option (Nat × Bool) := none

structure CloneSystem where
  kernel : Kernel
  estate : Slot → Estate
  clones : Cpu → Option Cloning := fun _ => none
  duty : Cpu → List Duty := fun _ => []
  /-- the children that are ready and have not run yet, as `linux_clone` made them -/
  published : Slot → Option (Esper × Estate) := fun _ => none
  /-- the children that have run: as `linux_clone` made them, and as they were when they were
  picked -/
  resumed : List ((Esper × Estate) × Esper × Estate) := []
  finished : List FinishedClone := []

/-- The parts of an Esper that the child gets from `linux_clone`: registers, address space, signal
table, and with them images, ids and descriptors. -/
def inherited (e : Esper × Estate) :
    Ctx × Option Nat × (Nat → UInt64) × (Nat → UInt64) × Estate :=
  (e.1.ctx, e.1.mm, e.1.sigHandler, e.1.sigRestorer, e.2)

/-- Those who have ended in between. -/
def ended (k k' : Kernel) : List Slot :=
  (List.finRange kMaxEspers).filter fun i => ¬ (k.espers i).dead ∧ (k'.espers i).dead

/-- What a CPU does next. -/
inductive Action where
  /-- `linux_clone` up to `esper_create` -/
  | clone (vm : Bool) (mm : Option Nat) (ctx : Ctx)
  | assign
  /-- `pr2_fork` has failed -/
  | abandon
  /-- `esper_make_ready`, or `esper_vfork_handoff` with the parent as it waits -/
  | publish
  | handoff (waits : Esper) (now : Nat)
  | pick (now : Nat) (after : Option Slot)
  | preempt (now : Nat)
  | park (waits : Esper) (now : Nat)
  | exit (now : Nat) (code : Int)
  /-- the first loop of `exit_group`, at the Esper at `t` -/
  | closeMember (t : Slot)
  | exitGroup (now : Nat) (code : Int)
  | fault (now : Nat)
  /-- the running Esper's own calls -/
  | own (e : Esper) (t : Estate)
  | reap (child : Slot)
  | ipcWake (kind : IpcWaitKind) (id : Option Nat)
  | wakePipe (p : Nat) (writers : Bool)
  | futexWake (phys count : Nat)
  | kill (t : Slot) (sig : Nat)
  | killPgrp (pgrp sig : Nat)
  /-- the next of those whom the CPU has yet to release -/
  | release

/-- The descriptors are closed, and the images let go. -/
def strip (t : Estate) (image : Bool) : Estate :=
  { t with
    images := if image then (none, none) else t.images
    fds := fun _ => {} }

/-- The references that are dropped then. -/
def stripRefs (e : Esper) (t : Estate) (image : Bool) : List Ref :=
  (List.range kMaxFds).flatMap (fun n => heldRef (t.fds n)) ++
    if image then spaceRefs e.mm t.images else []

namespace CloneSystem

/-- Whoever has been picked is resumed. -/
def resume (s : CloneSystem) (r : Option Slot × Kernel) : CloneSystem :=
  { s with
    kernel := r.2
    published := fun x => if r.1 = some x then none else s.published x
    resumed := (r.1.toList.flatMap fun x =>
      (s.published x).toList.map fun b => (b, r.2.espers x, s.estate x)) ++ s.resumed }

/-- Others have ended, and the CPU is to release what they had. -/
def noteEnded (s : CloneSystem) (c : Cpu) (k : Kernel) (image : Option (Nat × Bool)) :
    CloneSystem :=
  { s with
    kernel := k
    duty := update s.duty c (s.duty c ++ (ended s.kernel k).map fun i => ⟨i, image⟩) }

/-- `linux_clone` has created the child at `n`. -/
def begin (s : CloneSystem) (c : Cpu) (i n : Slot) (k : Kernel) (vm : Bool) (mm : Option Nat)
    (ctx : Ctx) : CloneSystem :=
  let κ : Cloning :=
    { parent := i, child := n, pid := (k.espers n).pid, vm := vm, mm := mm, ctx := ctx
      made := (k.espers n, {}) }
  { s with
    kernel := k
    estate := update s.estate n {}
    clones := update s.clones c (some κ)
    published := update s.published n none }

/-- The next assignment. -/
def assignNext (s : CloneSystem) (c : Cpu) (κ : Cloning) : CloneSystem :=
  let f := assign (s.kernel.espers κ.parent) (s.estate κ.parent) κ κ.done
  let r := f (s.kernel.espers κ.child, s.estate κ.child)
  let taken := assignRefs (s.kernel.espers κ.parent) (s.estate κ.parent) κ κ.done
  let κ' : Cloning := { κ with done := κ.done + 1, made := f κ.made, taken := κ.taken ++ taken }
  { s with
    kernel := s.kernel.set κ.child r.1
    estate := update s.estate κ.child r.2
    clones := update s.clones c (some κ') }

/-- The call is over, with the kernel as it is. -/
def finish (s : CloneSystem) (c : Cpu) (κ : Cloning) : CloneSystem :=
  let killed := (s.kernel.espers κ.child).dead
  { s with
    clones := update s.clones c none
    published := update s.published κ.child (if killed then none else some κ.made)
    finished := { killed := killed, taken := κ.taken, dropped := κ.dropped } :: s.finished }

/-- The Esper at `t` is stripped; the call of `linux_clone` that has made it notes what was
dropped. -/
def releaseOf (s : CloneSystem) (t : Slot) (image : Bool) : CloneSystem :=
  let refs := stripRefs (s.kernel.espers t) (s.estate t) image
  { s with
    estate := update s.estate t (strip (s.estate t) image)
    kernel := if image then s.kernel.set t { s.kernel.espers t with mm := none } else s.kernel
    clones := fun d => (s.clones d).map fun κ =>
      if κ.child = t then { κ with dropped := κ.dropped ++ refs } else κ }

/-- The Esper is still one that the loop is to release. -/
def isDue (s : CloneSystem) (u : Duty) : Bool :=
  match u.image with
  | none => true
  | some (mm, fatal) =>
    (s.kernel.espers u.slot).mm = some mm ∧ (fatal → (s.kernel.espers u.slot).state = .exited)

/-- A group of threads ends. -/
def endGroup (s : CloneSystem) (c : Cpu) (i : Slot) (mm : Nat) (now : Nat) (code : Int)
    (fatal : Bool) : CloneSystem :=
  let r := groupExitAndPick s.kernel c now i (some mm) code
  (s.noteEnded c r.2 (some (mm, fatal))).resume r

/-- Inside `linux_clone`. -/
def stepClone (s : CloneSystem) (c : Cpu) (κ : Cloning) : Action → CloneSystem
  | .assign => if κ.done < kAssignments then s.assignNext c κ else s
  | .abandon =>
    if κ.done = 0 ∧ κ.vm = false then
      { s with
        kernel := s.kernel.set κ.child ((s.kernel.espers κ.child).become .free)
        clones := update s.clones c none }
    else s
  | .publish =>
    if κ.done = kAssignments then
      { s.finish c κ with kernel := esperMakeReady s.kernel κ.child }
    else s
  | .handoff waits now =>
    if κ.done = kAssignments then
      let k := s.kernel.set κ.parent { waits with state := (s.kernel.espers κ.parent).state }
      match vforkHandoff k c now κ.parent κ.child with
      | (some n, k) => (s.finish c κ).resume (some n, k)
      | (none, k) => { s.finish c κ with kernel := setRunning k c κ.parent }
    else s
  | _ => s

/-- In a trap of the Esper at `i`. -/
def stepTrap (s : CloneSystem) (c : Cpu) (i : Slot) : Action → CloneSystem
  | .clone vm mm ctx =>
    match esperCreate s.kernel with
    | (some n, k) => s.begin c i n k vm mm ctx
    | (none, _) => s
  | .preempt now => s.resume (preemptAndPick s.kernel c now i)
  | .park waits now => s.resume (parkAndPickLocked (s.kernel.set i waits) c now i)
  | .exit now code => s.resume (exitAndPick s.kernel c now i code)
  | .closeMember t =>
    if (s.kernel.espers i).mm.isSome ∧ (s.kernel.espers t).mm = (s.kernel.espers i).mm ∧
        ¬ (s.kernel.espers t).dead then s.releaseOf t false
    else s
  | .exitGroup now code =>
    match (s.kernel.espers i).mm with
    | some mm => s.endGroup c i mm now code false
    | none => s
  | .fault now =>
    match (s.kernel.espers i).mm with
    | some mm => s.endGroup c i mm now (128 + 11) true
    | none => s.resume (faultAndPick s.kernel c now i)
  | .own e t =>
    { s with
      kernel := s.kernel.set i { e with state := (s.kernel.espers i).state }
      estate := update s.estate i t }
  | .reap child =>
    if (s.kernel.espers child).parent = some i ∧
        ((s.kernel.espers child).state = .exited ∨ (s.kernel.espers child).state = .faulted) then
      { s with kernel := reap s.kernel i child }
    else s
  | _ => s

/-- Outside `linux_clone`. -/
def stepOther (s : CloneSystem) (c : Cpu) : Action → CloneSystem
  | .pick now after => s.resume (pickAndClaim s.kernel c now after)
  | .ipcWake kind id => if kind = .none then s else { s with kernel := ipcWake s.kernel kind id }
  | .wakePipe p writers => { s with kernel := wakePipe s.kernel p writers }
  | .futexWake phys count => { s with kernel := futexWake s.kernel phys count }
  | .kill t sig => s.noteEnded c (fortis931Kill s.kernel t sig).2 none
  | .killPgrp pgrp sig => s.noteEnded c (fortis931KillPgrp s.kernel pgrp sig) none
  | .release =>
    match s.duty c with
    | u :: rest =>
      { (if s.isDue u then s.releaseOf u.slot u.image.isSome else s) with
        duty := update s.duty c rest }
    | [] => s
  | e =>
    match s.kernel.running c with
    | some i => s.stepTrap c i e
    | none => s

/-- Whoever has ended will not be run. -/
def settle (s : CloneSystem) : CloneSystem :=
  { s with published := fun x => if (s.kernel.espers x).dead then none else s.published x }

/-- What a CPU does next; what does not fit does nothing. -/
def step (s : CloneSystem) (ce : Cpu × Action) : CloneSystem :=
  settle <| match s.clones ce.1 with
    | some κ => s.stepClone ce.1 κ ce.2
    | none => s.stepOther ce.1 ce.2

/-! ## The property -/

variable (s : CloneSystem)

/-- The child at `x` is being built. -/
abbrev HalfBuilt (x : Slot) : Prop := ∃ c, ∃ κ ∈ s.clones c, κ.child = x

/-- What is asked for each child that is being built and has not ended. -/
abbrev EachChild (P : Slot → Prop) : Prop :=
  ∀ c, ∀ κ ∈ s.clones c, (s.kernel.espers κ.child).dead = false → P κ.child

/-- The child at `x` has not run yet. -/
def NotRun (x : Slot) : Prop := s.HalfBuilt x ∨ ∃ b, s.published x = some b

instance (x : Slot) : Decidable (s.NotRun x) :=
  decidable_of_iff (s.HalfBuilt x ∨ (s.published x).isSome) (by rw [Option.isSome_iff_exists]; rfl)

/-- A CPU is about to release the Esper at `x` with its address space. -/
def Due (x : Slot) : Prop :=
  (s.kernel.espers x).dead = true ∧ ∃ d mm fatal, ⟨x, some (mm, fatal)⟩ ∈ s.duty d ∧
    (s.kernel.espers x).mm = some mm

end CloneSystem

/-- No CPU has claimed a child that is being built; every child was what `linux_clone` had made when
it was first picked; and of a child that was killed meanwhile every reference has been dropped
once. -/
structure Whole (s : CloneSystem) : Prop where
  hidden : ∀ c κ, s.clones c = some κ → ∀ d, s.kernel.running d = some κ.child →
    (s.kernel.espers κ.child).pid ≠ κ.pid
  unchanged : ∀ r ∈ s.resumed, inherited r.2 = inherited r.1
  released : ∀ b ∈ s.finished, b.killed = true → b.dropped.Perm b.taken

/-! ## Gentle steps -/

/-- A child that was killed has been released when its call is over. -/
def GentleClone (s : CloneSystem) (κ : Cloning) : Action → Prop
  | .publish | .handoff _ _ =>
    (s.kernel.espers κ.child).dead = true → (s.kernel.espers κ.child).mm = none
  | _ => True

/-- What the other steps must not do to the children that are being built:

* a kill reaches neither such a child nor an Esper that has one for its recorded parent, unless the
  target survives the signal; a signal to a process group reaches no such child, and those that have
  one for their parent have a handler for it or hold it back;
* an Esper that exits has none for its recorded parent, and of the members of a group of threads
  that ends none has, but for a child that is a member itself;
* `exit_group` closes no descriptors of a child that has not run yet;
* `esper_create` takes no slot that is still being built or that a CPU has yet to release;
* a child that was killed is released when its call has made all assignments and before it is
  reaped, and has no descriptor that `linux_clone` copied without a reference. -/
def GentleOther (s : CloneSystem) (c : Cpu) : Action → Prop
  | .kill t sig => s.EachChild fun x => Survives (s.kernel.espers t) sig ∨
      (s.kernel.espers t).dead = true ∨ (t ≠ x ∧ (s.kernel.espers t).parent ≠ some x)
  | .killPgrp pgrp sig => pgrp ≠ 0 → s.EachChild fun x =>
      ∀ i, (s.kernel.espers i).pgrp = pgrp → (s.kernel.espers i).dead = false →
        i ≠ x ∧ ((s.kernel.espers i).parent ≠ some x ∨ Heeds (s.kernel.espers i) sig)
  | .exit _ _ => ∀ i ∈ s.kernel.running c, s.EachChild fun x => (s.kernel.espers i).parent ≠ some x
  | .exitGroup _ _ | .fault _ => ∀ i ∈ s.kernel.running c, ∀ mm ∈ (s.kernel.espers i).mm,
      s.EachChild fun x => (s.kernel.espers x).mm = some mm ∨ ∀ j,
        (s.kernel.espers j).mm = some mm →
        (s.kernel.espers j).dead = false → (s.kernel.espers j).parent ≠ some x
  | .closeMember t => s.NotRun t → (s.kernel.espers t).dead = true
  | .clone _ _ _ => ∀ n ∈ (esperCreate s.kernel).1, ¬ s.HalfBuilt n ∧ ∀ d, ∀ u ∈ s.duty d,
    u.slot ≠ n
  | .release => ∀ u ∈ (s.duty c).head?, ∀ g ∈ u.image, (s.kernel.espers u.slot).mm = some g.1 →
      s.HalfBuilt u.slot → (g.2 = true → (s.kernel.espers u.slot).state = .exited) ∧
        (∀ n < kMaxFds, copiedBare ((s.estate u.slot).fds n) = false) ∧
        ∀ d, ∀ κ ∈ s.clones d, κ.child = u.slot → κ.done = kAssignments
  | _ => True

/-- The step is gentle to the children that are being built. -/
def Gentle (s : CloneSystem) (ce : Cpu × Action) : Prop :=
  match s.clones ce.1 with
  | some κ => GentleClone s κ ce.2
  | none => GentleOther s ce.1 ce.2

instance (s : CloneSystem) (κ : Cloning) (a : Action) : Decidable (GentleClone s κ a) := by
  cases a <;> unfold GentleClone <;> infer_instance

set_option synthInstance.maxSize 256 in
instance (s : CloneSystem) (c : Cpu) (a : Action) : Decidable (GentleOther s c a) := by
  cases a <;> unfold GentleOther <;> infer_instance

instance (s : CloneSystem) (ce : Cpu × Action) : Decidable (Gentle s ce) := by
  unfold Gentle
  split <;> infer_instance

end IndexOS.Espers
