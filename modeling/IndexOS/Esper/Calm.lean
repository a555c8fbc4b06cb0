import IndexOS.Esper.OneCpu

/-!
# Espers that wait for nothing

A child that `linux_clone` is building, or that has not run yet, waits for nothing and has no
tracer. This file says what the critical sections of the other CPUs do to such an Esper.

* `Calm` — the Esper waits for nothing;
* `Spared`, `Kept` — at most a signal is noted in it, unless it is ready and ends;
* `Stays` — what a section does to an Esper that it is not aimed at: a calm one is kept, and one
  that has ended has still, with the same address space;
* `Leaves` — the same for a section in which a CPU picks.

A calm Esper that is not ready is in danger only from a signal to itself or to its process group,
from the end of its group of threads, and from the end of an Esper that has it for its recorded
parent: there it is taken to wait for a child (`Shields`).
-/

set_option autoImplicit false

namespace IndexOS.Espers

open Kernel
open Function (update_eq_self)
open Descriptors (kMaxEspers)

/-- The Esper waits for nothing. -/
structure Calm (e : Esper) : Prop where
  state : e.state = .waiting ∨ e.state = .ready
  pipe : e.waitPipeIdx = none
  ipc : e.ipcWaitKind = .none
  futex : e.waitFutex = false
  sleep : e.wakeCntpct = 0
  suspend : e.waitSigsuspend = false
  tracer : e.ptraceTracer = none

/-- At most a signal has been noted. -/
def Spared (e e' : Esper) : Prop := ∃ m, e' = { e with sigPending := m }

/-- Or the Esper was ready and has ended. -/
def Kept (e e' : Esper) : Prop := Spared e e' ∨ (e.state = .ready ∧ e'.dead = true)

/-- What a section does to an Esper that it is not aimed at. -/
structure Stays (e e' : Esper) : Prop where
  rests : e.dead = true → e'.dead = true ∧ e'.mm = e.mm
  kept : Calm e → Kept e e'

/-- The end of the Esper at `i` does not wake the one at `x`. -/
def Shields (k : Kernel) (x i : Slot) : Prop :=
  (k.espers x).state = .ready ∨ (k.espers i).parent ≠ some x

variable {k k' : Kernel} {x i t : Slot} {cpu : Cpu} {e e' e'' : Esper} {sig : Nat}

theorem Calm.alive (h : Calm e) : e.dead = false := by
  rcases h.state with hs | hs <;> exact not_dead_of_state hs (by simp)

theorem Spared.refl (e : Esper) : Spared e e := ⟨e.sigPending, rfl⟩

section
variable (h : Spared e e')
include h

theorem Spared.trans (h' : Spared e' e'') : Spared e e'' := by
  obtain ⟨m, rfl⟩ := h
  obtain ⟨m', rfl⟩ := h'
  exact ⟨m', rfl⟩

theorem Spared.calm (hc : Calm e) : Calm e' := by
  obtain ⟨m, rfl⟩ := h
  exact ⟨hc.state, hc.pipe, hc.ipc, hc.futex, hc.sleep, hc.suspend, hc.tracer⟩

theorem Spared.state : e'.state = e.state := by
  obtain ⟨m, rfl⟩ := h
  rfl

theorem Spared.mm : e'.mm = e.mm := by
  obtain ⟨m, rfl⟩ := h
  rfl

end

theorem Kept.refl (e : Esper) : Kept e e := Or.inl (.refl e)

theorem Stays.of_eq (h : e' = e) : Stays e e' := by
  subst h
  exact ⟨fun hdead => ⟨hdead, rfl⟩, fun _ => .refl _⟩

theorem Stays.trans (h : Stays e e') (h' : Stays e' e'') : Stays e e'' := by
  refine ⟨fun hdead => ?_, fun hc => ?_⟩
  · obtain ⟨hdead', hmm⟩ := h.rests hdead
    obtain ⟨hdead'', hmm'⟩ := h'.rests hdead'
    exact ⟨hdead'', hmm'.trans hmm⟩
  · rcases h.kept hc with hspared | ⟨hready, hdead⟩
    · refine (h'.kept (hspared.calm hc)).imp hspared.trans fun ⟨hready, hdead⟩ => ⟨?_, hdead⟩
      exact hspared.state.symm.trans hready
    · exact Or.inr ⟨hready, (h'.rests hdead).1⟩

/-- A section that changes only Espers that wait for something. -/
theorem Stays.ite {p : Prop} [Decidable p] (h : p → ¬ Calm e ∧ e'.dead = e.dead ∧ e'.mm = e.mm) :
    Stays e (if p then e' else e) := by
  split
  next hp =>
    obtain ⟨hc, hdead, hmm⟩ := h hp
    exact ⟨fun hd => ⟨hdead.trans hd, hmm⟩, fun hcalm => absurd hcalm hc⟩
  · exact .of_eq rfl

theorem Kernel.SameIdentity.mm (h : k.SameIdentity k') (x : Slot) :
    (k'.espers x).mm = (k.espers x).mm :=
  congrArg (fun id => id.2.2.2.1) (h x)

theorem Stays.of_identity (hkeeps : k.KeepsEnded k') (hid : k.SameIdentity k')
    (hkept : Calm (k.espers x) → Kept (k.espers x) (k'.espers x)) :
    Stays (k.espers x) (k'.espers x) :=
  ⟨fun hdead => ⟨hkeeps x hdead, hid.mm x⟩, hkept⟩

theorem Stays.of_ends (h : k.Ends k')
    (hkept : Calm (k.espers x) → Kept (k.espers x) (k'.espers x)) :
    Stays (k.espers x) (k'.espers x) :=
  .of_identity h.keeps h.identity hkept

/-! ## Waking -/

section
variable (k : Kernel) (x : Slot)

theorem wakeSleepers_stays (now : Nat) : Stays (k.espers x) ((wakeSleepers k now).espers x) :=
  .ite fun h => ⟨fun hc => h.2.1 hc.sleep, by simp [Esper.dead, h.1], rfl⟩

theorem ipcWake_stays {kind : IpcWaitKind} (hkind : kind ≠ .none) (id : Option Nat) :
    Stays (k.espers x) ((ipcWake k kind id).espers x) := by
  refine .ite fun h => ⟨fun hc => ?_, by simp [Esper.dead, h.1], rfl⟩
  simp [hc.ipc, Ne.symm hkind] at h

theorem wakePipe_stays (p : Nat) (writers : Bool) :
    Stays (k.espers x) ((wakePipe k p writers).espers x) := by
  refine .ite fun h => ⟨fun hc => ?_, by simp [Esper.dead, h.1], rfl⟩
  simp [hc.ipc, hc.pipe] at h

theorem detachTracees_stays (i : Slot) : Stays (k.espers x) ((detachTracees k i).espers x) := by
  refine .of_ends (detachTracees_steady k i).ends fun hc => ?_
  simpa [detachTracees, mapEspers, hc.tracer] using Kept.refl (k.espers x)

theorem futexWake_stays (phys count : Nat) :
    Stays (k.espers x) ((futexWake k phys count).espers x) := by
  refine List.foldlRecOn _ _ (motive := fun s : Kernel × Nat => Stays (k.espers x) (s.1.espers x))
    (.of_eq rfl) fun s hs j _ => hs.trans ?_
  rw [futexTurn]
  split
  next hj =>
    rw [set_espers]
    refine .ite fun hx => ?_
    subst hx
    refine ⟨fun hc => ?_, by simp [Esper.dead, endFutexWait, hj.2.1], rfl⟩
    cases hc.futex.symm.trans hj.2.2.1
  · exact .of_eq rfl

end

/-! ## Ending -/

theorem Calm.accepted (h : Calm e) (sig : Nat) : accepted e sig = e := by
  simp [Espers.accepted, endSuspend, passTracer, h.suspend, h.tracer]

/-- A signal is at most noted. -/
theorem Calm.deliver (h : Calm e) (sig : Nat) :
    Spared e (deliverSignalLocked e sig none true).esper := by
  have hint : intercepted e sig = false := by simp [intercepted, h.tracer]
  rw [deliverSignalLocked, h.accepted, hint]
  split
  · exact .refl e
  rw [if_neg (by decide)]
  split
  · exact ⟨_, rfl⟩
  split
  · exact .refl e
  · exact ⟨_, rfl⟩

theorem killFatal_other (ht : t ≠ x) (hs : Shields k x t) (sig : Nat) :
    (killFatal k t sig).espers x = k.espers x := by
  rw [killFatal]
  grind [Shields, set_espers]

section
variable (h : Calm (k.espers x))
include h

theorem Calm.maybeWakeParent (hi : i ≠ x) (hs : Shields k x i) :
    Spared (k.espers x) ((maybeWakeParent k i).espers x) := by
  rw [Espers.maybeWakeParent]
  dsimp only
  split
  · exact .refl _
  next j hj =>
    by_cases hjx : j = x
    · -- then the child is ready, and is not taken to wait for anybody
      subst hjx
      have hready : (k.espers j).state = .ready := hs.resolve_right fun hne => hne hj
      have hwake : wakeForChild (k.espers j) = k.espers j := by simp [wakeForChild, hready]
      rw [if_neg (by simp [inWait4, hready]), hwake]
      split
      · exact .refl _
      · rw [set_self]
        exact h.deliver 17
    · have hother : ∀ a b, ((k.set j a).set i b).espers x = k.espers x := fun a b => by
        simp [Ne.symm hi, Ne.symm hjx]
      have hrefl := Spared.refl (k.espers x)
      grind [set_espers]

theorem Calm.endWith (hi : i ≠ x) (hs : Shields k x i) (cpu : Cpu) (code : Int) :
    Kept (k.espers x) ((endWith k cpu i code).espers x) := by
  have hmark : (markExited k cpu i code).espers x = k.espers x := by
    rw [markExited_espers, if_neg (Ne.symm hi)]
  have hs' : Shields (markExited k cpu i code) x i := by
    rw [Shields, hmark, markExited_espers, if_pos rfl]
    exact hs
  have hwoken := (hmark.symm ▸ h : Calm ((markExited k cpu i code).espers x)).maybeWakeParent hi hs'
  rw [hmark] at hwoken
  rw [Espers.endWith]
  have hdetach :=
    (detachTracees_stays (Espers.maybeWakeParent (markExited k cpu i code) i) x i).kept
    (hwoken.calm h)
  exact hdetach.imp hwoken.trans fun hd => ⟨hwoken.state.symm.trans hd.1, hd.2⟩

/-- A kill of somebody else. -/
theorem Calm.kill_other (sig : Nat) (ht : t ≠ x)
    (hs : Shields k x t ∨ Survives (k.espers t) sig ∨ (k.espers t).dead = true) :
    Kept (k.espers x) ((fortis931Kill k t sig).2.espers x) := by
  have hset : ∀ e, (k.set t e).espers x = k.espers x := fun e => by
    rw [set_of_ne (Ne.symm ht)]
  rcases fortis931Kill_cases k t sig with hk | hk | ⟨halive, hno, k₁, hk₁, hk⟩
  · rw [hk]
    exact .refl _
  · rw [hk, hset]
    exact .refl _
  · have hid := (deliverSignalLocked_state (k.espers t) sig none true).2.2
    have hsame : k₁.espers x = k.espers x ∧ Shields k₁ x t := by
      grind [Shields, set_espers, Esper.identity]
    have hfatal := killFatal_other ht hsame.2 sig
    rw [hk, ← hsame.1, ← hfatal]
    refine (detachTracees_stays (killFatal k₁ t sig) x t).kept ?_
    rw [hfatal, hsame.1]
    exact h

/-- A kill of the child itself. -/
theorem Calm.kill_self (sig : Nat) :
    Spared (k.espers x) ((fortis931Kill k x sig).2.espers x) ∨
      (¬ Survives (k.espers x) sig ∧ ((fortis931Kill k x sig).2.espers x).dead = true) := by
  rcases fortis931Kill_cases k x sig with hk | hk | ⟨-, hno, k₁, -, hk⟩
  · rw [hk]
    exact Or.inl (.refl _)
  · rw [hk, set_self]
    exact Or.inl (h.deliver sig)
  · refine Or.inr ⟨hno, ?_⟩
    rw [hk, ((detachTracees_steady _ x).espers x).dead]
    exact (killFatal_dead k₁ x sig).1

end

theorem endWith_stays (hi : i ≠ x) (hs : Calm (k.espers x) → Shields k x i) (cpu : Cpu)
    (code : Int) : Stays (k.espers x) ((endWith k cpu i code).espers x) :=
  .of_identity (endWith_keepsEnded k cpu i code) (endWith_identity k cpu i code) fun hc =>
    hc.endWith hi (hs hc) cpu code

/-! ## Groups -/

theorem endMember_identity (k : Kernel) (cpu : Cpu) (mm : Option Nat) (code : Int) (j : Slot) :
    k.SameIdentity (endMember k cpu mm code j) := by
  rw [endMember]
  split
  · exact .refl k
  · exact endWith_identity k cpu j code

theorem endMember_keepsEnded (k : Kernel) (cpu : Cpu) (mm : Option Nat) (code : Int) (j : Slot) :
    k.KeepsEnded (endMember k cpu mm code j) := by
  rw [endMember]
  split
  · exact fun _ hx => hx
  · exact endWith_keepsEnded k cpu j code

/-- A loop that ends Espers.  Each turn finds its Esper under the same `g`, which the other turns
leave alone, and who is alive then was alive at the start. -/
theorem Stays.loop {α : Type} (g : Esper → α) {f : Kernel → Slot → Kernel}
    (hother : ∀ (k : Kernel) j y, y ≠ j → g ((f k j).espers y) = g (k.espers y))
    (hkeeps : ∀ (k : Kernel) j, k.KeepsEnded (f k j))
    (hid : ∀ (k : Kernel) j, k.SameIdentity (f k j))
    (hturn : ∀ k' j, g (k'.espers j) = g (k.espers j) →
      ((k'.espers j).dead = false → (k.espers j).dead = false) → Calm (k.espers x) →
      Spared (k.espers x) (k'.espers x) → Kept (k'.espers x) ((f k' j).espers x)) :
    Stays (k.espers x) (((List.finRange kMaxEspers).foldl f k).espers x) := by
  -- over the turns that are left, which find their Espers as they were at the start
  have hloop : ∀ l : List Slot, l.Nodup → ∀ k' : Kernel,
      (∀ j ∈ l, g (k'.espers j) = g (k.espers j)) → k.KeepsEnded k' →
        Stays (k.espers x) (k'.espers x) → Stays (k.espers x) ((l.foldl f k').espers x) := by
    intro l
    induction l with
    | nil => exact fun _ _ _ _ hstays => hstays
    | cons j rest ih =>
      intro hnodup k' hsame hends hstays
      obtain ⟨hj, hrest⟩ := List.nodup_cons.1 hnodup
      refine ih hrest (f k' j) (fun y hy => ?_) (hends.trans (hkeeps k' j))
        ⟨fun hdead => ?_, fun hc => ?_⟩
      · have hne : y ≠ j := fun h => hj (h ▸ hy)
        exact (hother k' j y hne).trans (hsame y (List.mem_cons_of_mem j hy))
      · obtain ⟨hdead', hmm⟩ := hstays.rests hdead
        exact ⟨hkeeps k' j x hdead', ((hid k' j).mm x).trans hmm⟩
      · have halive (hlive : (k'.espers j).dead = false) : (k.espers j).dead = false := by
          refine Bool.eq_false_iff.2 fun hd => ?_
          cases (hends j hd).symm.trans hlive
        rcases hstays.kept hc with hspared | ⟨hready, hdead⟩
        · refine (hturn k' j (hsame j List.mem_cons_self) halive hc hspared).imp hspared.trans ?_
          exact fun hd => ⟨hspared.state.symm.trans hd.1, hd.2⟩
        · exact Or.inr ⟨hready, hkeeps k' j x hdead⟩
  exact hloop _ (List.nodup_finRange _) k (fun _ _ => rfl) (fun _ hx => hx) (.of_eq rfl)

theorem Calm.killMember (h : Calm (k.espers x)) {pgrp : Nat}
    (hout : (k.espers x).state = .ready ∨ ((k.espers i).pgrp = pgrp → (k.espers i).dead = false →
      i ≠ x ∧ ((k.espers i).parent ≠ some x ∨ Heeds (k.espers i) sig))) :
    Kept (k.espers x) ((killMember k pgrp sig i).espers x) := by
  rw [Espers.killMember]
  split
  · exact .refl _
  next hmember =>
    simp only [not_or, not_not, Bool.not_eq_true] at hmember
    rw [killInGroup]
    by_cases hix : i = x
    · subst hix
      have hready : (k.espers i).state = .ready :=
        hout.resolve_right fun hno => (hno hmember.1 hmember.2).1 rfl
      have hprep : prepInterruptWait (k.espers i) = k.espers i := by
        simp [prepInterruptWait, hready]
      rw [hprep, Kernel.set, update_eq_self]
      exact (h.kill_self sig).imp_right fun hd => ⟨hready, hd.2⟩
    · have hsame : ∀ e, (k.set i e).espers x = k.espers x := fun e => by
        rw [set_of_ne (Ne.symm hix)]
      have hkill := ((hsame (prepInterruptWait (k.espers i))).symm ▸ h : Calm _).kill_other sig hix
      rw [Shields, hsame, set_self] at hkill
      refine hkill ?_
      rcases hout with hready | hno
      · exact Or.inl (Or.inl hready)
      · rcases (hno hmember.1 hmember.2).2 with hparent | hheeds
        · have hid := (prepInterruptWait_steady (k.espers i)).identity
          simp only [Esper.identity, Prod.mk.injEq] at hid
          exact Or.inl (Or.inr (hid.2.2.1 ▸ hparent))
        · exact Or.inr (Or.inl (Or.inl ((heeds_congr (prepInterruptWait_heeding _) sig).2 hheeds)))

theorem fortis931KillPgrp_stays {pgrp : Nat} (sig : Nat) (hout : Calm (k.espers x) →
      (k.espers x).state = .ready ∨ (pgrp ≠ 0 → ∀ i, (k.espers i).pgrp = pgrp →
        (k.espers i).dead = false → i ≠ x ∧
        ((k.espers i).parent ≠ some x ∨ Heeds (k.espers i) sig))) :
    Stays (k.espers x) ((fortis931KillPgrp k pgrp sig).espers x) := by
  rw [fortis931KillPgrp]
  split
  · exact .of_eq rfl
  next hpgrp =>
    refine .loop (fun e => (e.identity, e.heeding)) (fun k j y hy => ?_)
      (fun k j => (killMember_ends k pgrp sig j).keeps)
      (fun k j => (killMember_ends k pgrp sig j).identity)
      fun k' j hsame halive hc hspared => ?_
    · rw [(killMember_ends k pgrp sig j).identity y, killMember_other k pgrp sig hy]
    · obtain ⟨hid, hheeding⟩ := Prod.mk.inj hsame
      simp only [Esper.identity, Prod.mk.injEq] at hid
      refine (hspared.calm hc).killMember ?_
      rw [hspared.state, hid.2.2.1, hid.2.1, heeds_congr hheeding]
      exact (hout hc).imp_right fun hno hgroup hlive => hno hpgrp j hgroup (halive hlive)

theorem endMembers_stays {mm : Option Nat} (hout : Calm (k.espers x) → (k.espers x).state = .ready ∨
      ∀ i, (k.espers i).mm = mm → (k.espers i).dead = false → i ≠ x ∧ (k.espers i).parent ≠ some x)
    (cpu : Cpu) (code : Int) : Stays (k.espers x)
      (((List.finRange kMaxEspers).foldl (fun k j => endMember k cpu mm code j) k).espers x) := by
  refine .loop Esper.identity (fun k j y _ => endMember_identity k cpu mm code j y)
    (fun k j => endMember_keepsEnded k cpu mm code j)
    (fun k j => endMember_identity k cpu mm code j)
    fun k' j hsame halive hc hspared => ?_
  simp only [Esper.identity, Prod.mk.injEq] at hsame
  rw [endMember]
  split
  · exact .refl _
  next hin =>
    simp only [not_or, not_not, Bool.not_eq_true] at hin
    have hout := (hout hc).imp_right fun hno =>
      hno j (hsame.2.2.2.1.symm.trans hin.2) (halive hin.1)
    by_cases hjx : j = x
    · subst hjx
      refine Or.inr ⟨?_, (endWith_dead k' cpu j code).1⟩
      rw [hspared.state]
      exact hout.resolve_right fun hno => hno.1 rfl
    · refine (hspared.calm hc).endWith hjx ?_ cpu code
      rw [Shields, hspared.state, hsame.2.2.1]
      exact hout.imp_right And.right

/-- The members of a group of threads that ends have ended, with the space they had. -/
theorem endMembers_dead {mm : Option Nat} (cpu : Cpu) (code : Int) (hx : (k.espers x).mm = mm) :
    let k' := (List.finRange kMaxEspers).foldl (fun k j => endMember k cpu mm code j) k
    (k'.espers x).dead = true ∧ (k'.espers x).mm = mm := by
  have hloop : ∀ (l : List Slot) (k : Kernel), (k.espers x).mm = mm →
      (x ∈ l ∨ (k.espers x).dead = true) →
        ((l.foldl (fun k j => endMember k cpu mm code j) k).espers x).dead = true ∧
          ((l.foldl (fun k j => endMember k cpu mm code j) k).espers x).mm = mm := by
    intro l
    induction l with
    | nil => exact fun _ hmm h => ⟨h.resolve_left List.not_mem_nil, hmm⟩
    | cons j rest ih =>
      intro k hmm hx
      refine ih _ (((endMember_identity k cpu mm code j).mm x).trans hmm) ?_
      rcases hx with hx | hdead
      · rcases List.mem_cons.1 hx with rfl | hx
        · have hturn : ((endMember k cpu mm code x).espers x).dead = true := by
            rw [endMember]
            split
            next h => exact h.resolve_right fun hne => hne hmm
            · exact (endWith_dead k cpu x code).1
          exact Or.inr hturn
        · exact Or.inl hx
      · exact Or.inr (endMember_keepsEnded k cpu mm code j x hdead)
  exact hloop _ k hx (Or.inl (List.mem_finRange x))

/-! ## Picking -/

/-- What becomes of the Esper at `x` when a CPU picks: it is left alone, or it was ready and is
claimed. -/
structure Leaves (e : Esper) (r : Option Slot × Kernel) (x : Slot) : Prop where
  stays : r.1 ≠ some x → Stays e (r.2.espers x)
  claimed : r.1 = some x → e.dead = false ∧
    (Calm e → e.state = .ready ∧ ∃ e', Spared e e' ∧ r.2.espers x = e'.become .running)

section
variable (h : Stays e (k.espers x))
include h

theorem Stays.claim {n : Slot} (hn : claimable k n = true) (cpu : Cpu) :
    Leaves e (some n, claim k cpu n) x := by
  have hespers : (Espers.claim k cpu n).espers x =
      if x = n then (k.espers n).become .running else k.espers x :=
    set_espers ..
  refine ⟨fun hne => ?_, fun heq => ?_⟩
  · rw [hespers, if_neg fun hx => hne (congrArg some hx.symm)]
    exact h
  · obtain rfl : n = x := Option.some.inj heq
    have halive := claimable_alive hn
    refine ⟨Bool.eq_false_iff.2 fun hd => ?_, fun hc => ?_⟩
    · cases (h.rests hd).1.symm.trans halive
    · rw [hespers, if_pos rfl]
      rcases h.kept hc with hspared | ⟨-, hdead⟩
      · exact ⟨hspared.state.symm.trans (claimable_ready hn), _, hspared, rfl⟩
      · cases hdead.symm.trans halive

theorem Stays.stay : Leaves e (none, k) x := ⟨fun _ => h, nofun⟩

theorem Stays.pick (cpu : Cpu) (now : Nat) (after : Option Slot) :
    Leaves e (pickAndClaim k cpu now after) x := by
  obtain ⟨k₁, hk₁, hpick⟩ := pickAndClaim_spec k cpu now after
  have hstays : Stays e (k₁.espers x) := by
    rcases hk₁ with rfl | rfl
    · exact h
    · exact h.trans (wakeSleepers_stays k x now)
  rcases hpick with hpick | ⟨n, hn, -, hpick⟩
  · rw [hpick]
    exact hstays.stay
  · rw [hpick]
    exact hstays.claim hn cpu

end

theorem preemptAndPick_leaves (k : Kernel) (hi : i ≠ x) (cpu : Cpu) (now : Nat) :
    Leaves (k.espers x) (preemptAndPick k cpu now i) x := by
  have hstays : Stays (k.espers x) ((if cpu.val = 0 then wakeSleepers k now else k).espers x) := by
    split
    · exact wakeSleepers_stays k x now
    · exact .of_eq rfl
  rw [preemptAndPick]
  generalize (if cpu.val = 0 then wakeSleepers k now else k) = k₁ at hstays
  split
  · exact hstays.stay
  split
  · exact hstays.stay
  next n hfind =>
    have hn := List.find?_some hfind
    simp only [decide_eq_true_eq] at hn
    split
    · have hother : ∀ y, y ≠ i → (k₁.set i ((k₁.espers i).become .ready)).espers y = k₁.espers y :=
        fun y hy => by rw [set_of_ne hy]
      refine Stays.claim ((hother x (Ne.symm hi)).symm ▸ hstays) ?_ cpu
      have hclaim := hn.2
      simp only [claimable, hother n hn.1] at ⊢
      exact hclaim
    · exact hstays.claim hn.2 cpu

end IndexOS.Espers
