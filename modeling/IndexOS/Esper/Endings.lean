import IndexOS.Esper.Dispositions
import IndexOS.Esper.Machine

/-!
# Whoever has ended stays so

What the critical sections do to those that have ended, where they do not pick: wake-ups and an
Esper's own calls end nobody, a kill ends its target unless that survives the signal, and none of
them brings anybody back.

* `Kernel.KeepsEnded`, `Kernel.Ends` — whoever has ended still has; and nobody is somebody else;
* `Survives`, `Heeds` — the Esper outlives a signal, from a kill or to its process group;
* `fortis931Kill_cases` — what a kill does;
* `esperCreate_spec` — a slot is taken only from an Esper that has ended.
-/

set_option autoImplicit false

namespace IndexOS.Espers

open Kernel
open Function (update_of_ne)
open Descriptors (kMaxEspers)

variable {k k' k'' : Kernel} {cpu c : Cpu} {now : Nat} {i : Slot}

/-! ## Without a switch -/

/-- Whoever has ended still has. -/
def Kernel.KeepsEnded (k k' : Kernel) : Prop :=
  ∀ x, (k.espers x).dead = true → (k'.espers x).dead = true

theorem Kernel.SameFate.keepsEnded (h : k.SameFate k') : k.KeepsEnded k' :=
  fun x hx => (h x).dead.trans hx

theorem Kernel.KeepsEnded.trans (h : k.KeepsEnded k') (h' : k'.KeepsEnded k'') : k.KeepsEnded k'' :=
  fun x hx => h' x (h x hx)

/-- Espers may have ended, and nobody is somebody else or on another CPU. -/
structure Kernel.Ends (k k' : Kernel) : Prop where
  keeps : k.KeepsEnded k'
  identity : k.SameIdentity k'
  running : k'.running = k.running

theorem Kernel.Steady.ends (h : k.Steady k') : k.Ends k' :=
    ⟨h.sameFate.keepsEnded, h.identity, h.running⟩

theorem Kernel.Ends.refl (k : Kernel) : k.Ends k := (Steady.refl k).ends

theorem Kernel.Ends.trans (h : k.Ends k') (h' : k'.Ends k'') : k.Ends k'' :=
  ⟨h.keeps.trans h'.keeps, h.identity.trans h'.identity, h'.running.trans h.running⟩

/-- One Esper is written, and has ended afterwards. -/
theorem set_keepsEnded {e : Esper} (h : e.dead = true) : k.KeepsEnded (k.set i e) := by
  intro x hx
  rw [set_espers]
  split
  · exact h
  · exact hx

theorem Kernel.Ends.set {e : Esper} (h : e.dead = true) (hid : e.identity = (k.espers i).identity) :
    k.Ends (k.set i e) := by
  refine ⟨set_keepsEnded h, fun x => ?_, set_running k i e⟩
  rw [set_espers]
  split
  next hx => rw [hx, hid]
  · rfl

theorem endWith_keepsEnded (k : Kernel) (cpu : Cpu) (i : Slot) (code : Int) :
    k.KeepsEnded (endWith k cpu i code) := by
  have hmark : k.KeepsEnded (markExited k cpu i code) :=
    (set_keepsEnded rfl).trans (clearRunningSlot_sameFate _ cpu i).keepsEnded
  exact hmark.trans (endWith_steady_markExited k cpu i code).sameFate.keepsEnded

/-! ### Kills -/

variable (e : Esper)

/-- The signal does not end the Esper: it is held back, or there is a handler for it. -/
def Heeds (sig : Nat) : Prop :=
  refused e sig = false ∧ (heldBack e sig = true ∨ noHandler e sig = false)

/-- Or its tracer hears of it first. -/
def Survives (sig : Nat) : Prop :=
  Heeds e sig ∨ (refused e sig = false ∧ intercepted e sig = true)

instance (sig : Nat) : Decidable (Heeds e sig) := inferInstanceAs (Decidable (_ ∧ _))

instance (sig : Nat) : Decidable (Survives e sig) := inferInstanceAs (Decidable (_ ∨ _))

theorem Survives.ok {e : Esper} {sig : Nat} {stackOk : Bool} {d : Delivery} (h : Survives e sig)
    (hd : Delivers e sig stackOk none d) : d.ok = true := by
  cases hd with
  | refused hr =>
    rcases h with ⟨hr', -⟩ | ⟨hr', -⟩ <;> cases hr.symm.trans hr'
  | trapped | held | later => rfl
  | default hr hi hh hn =>
    rcases h with ⟨-, hh' | hn'⟩ | ⟨-, hi'⟩
    · cases hh.symm.trans hh'
    · cases hn.symm.trans hn'
    · cases hi.symm.trans hi'

theorem killFatal_ends (k : Kernel) (i : Slot) (sig : Nat) : k.Ends (killFatal k i sig) := by
  rw [killFatal]
  dsimp only
  split
  · exact .set rfl rfl
  next j _ =>
    split
    next hp =>
      refine ((Ends.set ?_ ?_).trans (Steady.set ⟨.of_woken hp.1 ?_, ?_⟩).ends).trans
        (.set ?_ ?_) <;> rfl
    · exact .set rfl rfl

section
variable (k : Kernel) (t : Slot) (sig : Nat)

/-- A kill does nothing, is a delivery, or ends its target. -/
theorem fortis931Kill_cases :
    (fortis931Kill k t sig).2 = k ∨
      (fortis931Kill k t sig).2 = k.set t (deliverSignalLocked (k.espers t) sig none true).esper ∨
      ((k.espers t).dead = false ∧ ¬ Survives (k.espers t) sig ∧ ∃ k₁,
        (k₁ = k ∨ k₁ = k.set t (deliverSignalLocked (k.espers t) sig none true).esper) ∧
          (fortis931Kill k t sig).2 = detachTracees (killFatal k₁ t sig) t) := by
  rw [fortis931Kill, killOneLocked]
  dsimp only
  cases hdead : (k.espers t).dead with
  | true => exact Or.inl (by rw [if_pos rfl])
  | false =>
    rw [if_neg (by decide)]
    cases hok : (deliverSignalLocked (k.espers t) sig none true).ok with
    | true =>
      have hlinux := (deliverSignalLocked_delivers (k.espers t) sig none true).linux hok
      exact Or.inr (Or.inl (by rw [if_pos ⟨hlinux, rfl⟩]))
    | false =>
      rw [if_neg (by simp)]
      refine Or.inr (Or.inr ⟨rfl, fun h => ?_, _, ?_, rfl⟩)
      · exact absurd ((h.ok (deliverSignalLocked_delivers _ sig none true)).symm.trans hok)
          (by decide)
      · split
        · exact Or.inr rfl
        · exact Or.inl rfl

theorem fortis931Kill_ends : k.Ends (fortis931Kill k t sig).2 := by
  have hdeliver : k.Ends (k.set t (deliverSignalLocked (k.espers t) sig none true).esper) :=
    (Steady.set (deliverSignalLocked_steady _ sig none true)).ends
  rcases fortis931Kill_cases k t sig with hk | hk | ⟨-, -, k₁, hk₁, hk⟩
  · rw [hk]
    exact .refl k
  · rw [hk]
    exact hdeliver
  · rw [hk]
    have h₁ : k.Ends k₁ := by
      rcases hk₁ with rfl | rfl
      · exact .refl _
      · exact hdeliver
    exact (h₁.trans (killFatal_ends k₁ t sig)).trans (detachTracees_steady _ t).ends

end

theorem killMember_ends (k : Kernel) (pgrp sig : Nat) (i : Slot) :
    k.Ends (killMember k pgrp sig i) := by
  rw [killMember]
  split
  · exact .refl k
  · exact (Steady.set (prepInterruptWait_steady _)).ends.trans (fortis931Kill_ends _ i sig)

theorem fortis931KillPgrp_ends (k : Kernel) (pgrp sig : Nat) :
    k.Ends (fortis931KillPgrp k pgrp sig) := by
  rw [fortis931KillPgrp]
  split
  · exact .refl k
  · exact List.foldlRecOn _ _ (motive := fun k' => k.Ends k') (.refl k)
      fun k' hk' i _ => hk'.trans (killMember_ends k' pgrp sig i)

variable {n x child : Slot}

/-- What a kill writes to an Esper that is not its target does not change what signals do to it. -/
theorem fortis931Kill_other (k : Kernel) (t : Slot) (sig : Nat) (hx : x ≠ t) {α : Type}
    (f : Esper → α) (hgive : ∀ p c, f (giveStatus p c) = f p)
    (hdetach : ∀ j k, f ((detachTracees k j).espers x) = f (k.espers x)) :
    f ((fortis931Kill k t sig).2.espers x) = f (k.espers x) := by
  have hset : ∀ (k : Kernel) e, (k.set t e).espers x = k.espers x := by
    intro k e
    rw [set_of_ne hx]
  have hfatal : ∀ k, f ((killFatal k t sig).espers x) = f (k.espers x) := by
    intro k
    rw [killFatal]
    dsimp only
    split
    · rw [hset]
    next j _ =>
      split
      · rw [hset, set_espers]
        split
        next hj => rw [hgive, ← hj, hset]
        · rw [hset]
      · rw [hset]
  rcases fortis931Kill_cases k t sig with hk | hk | ⟨-, -, k₁, hk₁, hk⟩
  · rw [hk]
  · rw [hk, hset]
  · rw [hk, hdetach, hfatal]
    rcases hk₁ with rfl | rfl
    · rfl
    · rw [hset]

/-- What decides whether an Esper heeds a signal to its process group. -/
def Esper.heeding : Nat × Abi × Sigset × Bool × (Nat → UInt64) :=
  (e.pgrp, e.abi, e.sigMask, e.waitSigsuspend, e.sigHandler)

open Esper

theorem heeds_congr {e e' : Esper} (h : e'.heeding = e.heeding) (sig : Nat) :
    Heeds e' sig ↔ Heeds e sig := by
  simp only [heeding, Prod.mk.injEq] at h
  obtain ⟨-, habi, hmask, hsuspend, hhandler⟩ := h
  simp only [Heeds, refused, heldBack, noHandler, habi, hmask, hsuspend, hhandler]

theorem prepInterruptWait_heeding : (prepInterruptWait e).heeding = e.heeding := by
  rw [prepInterruptWait]
  split <;> rfl

theorem killMember_other (k : Kernel) (pgrp sig : Nat) {x y : Slot} (hx : x ≠ y) :
    ((killMember k pgrp sig y).espers x).heeding = (k.espers x).heeding := by
  rw [killMember]
  split
  · rfl
  · rw [killInGroup, fortis931Kill_other _ y sig hx heeding (fun _ _ => rfl)]
    · rw [set_of_ne hx]
    · intro j k
      rw [detachTracees, mapEspers]
      dsimp only
      split
      · split <;> rfl
      · rfl

/-! ### Everything else without a switch -/

theorem futexWake_steady (k : Kernel) (phys count : Nat) : k.Steady (futexWake k phys count) := by
  refine List.foldlRecOn _ _ (motive := fun s : Kernel × Nat => k.Steady s.1) (.refl k)
    fun s hs i _ => ?_
  rw [futexTurn]
  split
  next h => exact hs.trans (.set ⟨.of_woken h.2.1 rfl, rfl⟩)
  · exact hs

/-- Every section of which the running Espers are not aware. -/
theorem quiet_ends (k : Kernel) (q : Quiet) : k.Ends (q.run k) := by
  cases q with
  | ipcWake kind id =>
    rw [Quiet.run]
    split
    · exact (ipcWake_steady k kind id).ends
    · exact .refl k
  | wakePipe p writers => exact (wakePipe_steady k p writers).ends
  | futexWake phys count => exact (futexWake_steady k phys count).ends
  | kill t sig => exact fortis931Kill_ends k t sig
  | killPgrp pgrp sig => exact fortis931KillPgrp_ends k pgrp sig
  | post t sig => exact (Steady.set (deliverSignalLocked_steady _ sig none true)).ends
  | setOnlineCpus n => exact ⟨fun _ hx => hx, fun _ => rfl, rfl⟩

theorem attach_sameFate (tracer : Slot) : SameFate e (attach e tracer) := by
  rw [attach]
  dsimp only
  split
  next h => exact .of_woken h.1 rfl
  · exact .of_eq rfl rfl

theorem mentalOutResume_sameFate (singleStep syscallMode : Bool) (injectSig : Nat) :
    SameFate e (mentalOutResume e singleStep syscallMode injectSig) := by
  have hinject : ∀ e₁ : Esper, e₁.state = e.state → e₁.exitCode = e.exitCode → SameFate e
      (if e₁.state = .waiting ∧ e₁.ipcWaitKind = .ptraceStop then
        { e₁ with ipcWaitKind := .none, ipcWaitId := none, state := .ready } else e₁) := by
    intro e₁ hs hc
    split
    next h => exact .of_woken (hs ▸ h.1) rfl
    · exact .of_eq hs hc
  refine hinject _ ?_ ?_
  · split <;> rfl
  · split <;> rfl

theorem reapable_dead {me : Slot} {want : Int} (h : reapable k me want = some child) :
    (k.espers child).dead = true := by
  have hchild := List.find?_some h
  simp only [decide_eq_true_eq] at hchild
  rcases hchild.2.2 with hs | hs <;> simp [dead, hs]

theorem reap_sameFate {me : Slot} (h : (k.espers child).dead = true) :
    k.SameFate (reap k me child) := by
  have hfree : k.SameFate (k.set child ((k.espers child).become .free)) :=
    .set ⟨h.symm, fun _ => rfl⟩
  rw [reap]
  split
  · exact hfree
  · exact hfree.trans (.set (.of_eq rfl rfl))

/-- What an Esper does for itself ends nobody. -/
theorem own_sameFate (k : Kernel) (frame : Ctx) (i : Slot) (o : Own) :
    k.SameFate (o.run k frame i).1 := by
  cases o with
  | result v => exact .refl k
  | sigaction | sigprocmask | sigreturn | setpgid | traceme => exact .set (.of_eq rfl rfl)
  | signal sig stackOk consumed =>
    refine .set ?_
    split
    · exact (deliverSignalLocked_steady _ sig (some frame) stackOk).toSameFate.trans
        (.of_eq rfl rfl)
    · exact (deliverSignalLocked_steady _ sig (some frame) stackOk).toSameFate
  | exec abi mm ctx =>
    have hload : k.SameFate (k.set i (loadImage (k.espers i) abi mm ctx)) := .set (.of_eq rfl rfl)
    exact hload.trans (ipcWake_steady _ _ _).sameFate
  | reap want =>
    rw [Own.run]
    split
    next child h => exact reap_sameFate (reapable_dead h)
    · exact .refl k
  | attach t =>
    rw [Own.run]
    split
    · exact .refl k
    · exact .set (attach_sameFate _ i)
  | seize t sysgood =>
    rw [Own.run]
    split
    · exact .refl k
    · exact .set (.of_eq rfl rfl)
  | setoptions | setregs =>
    rw [Own.run]
    split
    · exact .set (.of_eq rfl rfl)
    · exact .refl k
  | detach t injectSig =>
    rw [Own.run]
    split
    · refine .set (SameFate.trans (.of_eq ?_ ?_) (mentalOutResume_sameFate _ _ _ _)) <;> rfl
    · exact .refl k
  | ptraceKill | resume =>
    rw [Own.run]
    split
    · exact .set (mentalOutResume_sameFate _ _ _ _)
    · exact .refl k

theorem tellTracer_steady (k : Kernel) (i : Slot) (sig : Nat) : k.Steady (tellTracer k i sig) := by
  rw [tellTracer]
  split
  · exact .refl k
  · dsimp only
    split
    next h =>
      simp only [tracerInWait4, decide_eq_true_eq] at h
      exact .set ⟨.of_woken h.1 rfl, rfl⟩
    · split
      · exact .refl k
      · exact .set (deliverSignalLocked_steady _ 17 none true)

/-! ## Taking a slot -/

theorem createSlot_spec (h : createSlot k = some n) :
    (k.espers n).dead = true ∧ slotInUse k n = false := by
  rw [createSlot] at h
  split at h
  next j hj =>
    have hfree := List.find?_some hj
    simp only [decide_eq_true_eq, Bool.not_eq_true] at hfree
    cases h
    exact ⟨by simp [dead, hfree.1], hfree.2⟩
  next =>
    -- the minimum is one of those it is taken over
    refine List.foldlRecOn _ _ (motive := fun best => ∀ b, best = some b →
      (k.espers b).dead = true ∧ slotInUse k b = false)
      (fun b hb => absurd hb (by simp)) (fun best hbest j hj b hb => ?_) n h
    have hj' : (k.espers j).dead = true ∧ slotInUse k j = false := by
      simp only [List.mem_filter, decide_eq_true_eq, Bool.not_eq_true] at hj
      refine ⟨?_, hj.2.2⟩
      rcases hj.2.1 with hs | hs <;> simp [dead, hs]
    split at hb
    · cases hb
      exact hj'
    · split at hb
      · cases hb
        exact hj'
      · cases hb
        exact hbest _ rfl

/-- `esper_create` takes a slot whose Esper has ended, for a new pid. -/
theorem esperCreate_spec (h : esperCreate k = (some n, k')) :
    (k.espers n).dead = true ∧ k'.nextPid = k.nextPid + 1 ∧ (k'.espers n).pid = k.nextPid ∧
      ∀ x, x ≠ n → k'.espers x = k.espers x := by
  rw [esperCreate] at h
  split at h
  · cases h
  next j hj =>
    simp only at h
    obtain ⟨rfl, rfl⟩ := h
    refine ⟨(createSlot_spec hj).1, rfl, ?_, fun x hx => ?_⟩
    · simp [Kernel.set]
    · exact update_of_ne hx _ _

end IndexOS.Espers
