import IndexOS.Esper.Sections

/-!
# Who lives and who has ended

What the critical sections do to the life of an Esper: wake-ups, signals and picks neither end one
nor bring one back.

* `SameFate` — an Esper has ended exactly if it had before, and then its exit code is the same;
* `Steady` — and it is still the same Esper;
* `Kernel.SameFate`, `Kernel.Steady` — so for every slot, and the latter also for `g_running`;
* one lemma for each section; those that write a state without looking at it ask that the Esper they
  write to has not ended, and those that end an Esper say so of all others.
-/

set_option autoImplicit false

namespace IndexOS.Espers

open Descriptors (kMaxEspers)

variable (e : Esper) (sig : Nat) (frame : Option Ctx) (stackOk : Bool)

/-- The first has ended exactly if the second has, and then with the same code. -/
structure SameFate (e e' : Esper) : Prop where
  dead : e'.dead = e.dead
  exitCode : e.dead = true → e'.exitCode = e.exitCode

theorem SameFate.refl : SameFate e e := ⟨rfl, fun _ => rfl⟩

theorem SameFate.trans {a b c : Esper} (h : SameFate a b) (h' : SameFate b c) : SameFate a c :=
  ⟨h'.dead.trans h.dead, fun ha => (h'.exitCode (h.dead.trans ha)).trans (h.exitCode ha)⟩

theorem SameFate.of_alive {e e' : Esper} (h : e.dead = false) (h' : e'.dead = false) :
    SameFate e e' :=
  ⟨h'.trans h.symm, fun hd => nomatch h.symm.trans hd⟩

/-- State and exit code are all that counts. -/
theorem SameFate.of_eq {e e' : Esper} (hs : e'.state = e.state) (hc : e'.exitCode = e.exitCode) :
    SameFate e e' := ⟨by rw [Esper.dead, Esper.dead, hs], fun _ => hc⟩

theorem not_dead_of_state {e : Esper} {s : EsperState} (h : e.state = s)
    (hs : s = .ready ∨ s = .running ∨ s = .waiting) : e.dead = false := by
  rcases hs with rfl | rfl | rfl <;> simp [Esper.dead, h]

/-- An Esper that waited is woken. -/
theorem SameFate.of_woken {e e' : Esper} (h : e.state = .waiting) (h' : e'.state = .ready) :
    SameFate e e' :=
  .of_alive (not_dead_of_state h (by simp)) (not_dead_of_state h' (by simp))

/-- What no section but an Esper's own calls writes: its pid, process group, parent, address space,
ABI and handlers. -/
def Esper.identity (e : Esper) : Nat × Nat × Option Slot × Option Nat × Abi × (Nat → UInt64) :=
  (e.pid, e.pgrp, e.parent, e.mm, e.abi, e.sigHandler)

/-- Neither its fate nor who the Esper is has changed. -/
structure Steady (e e' : Esper) : Prop extends SameFate e e' where
  identity : e'.identity = e.identity

theorem Steady.refl : Steady e e := ⟨.refl e, rfl⟩

theorem Steady.trans {a b c : Esper} (h : Steady a b) (h' : Steady b c) : Steady a c :=
  ⟨h.toSameFate.trans h'.toSameFate, h'.identity.trans h.identity⟩

variable {k k' k'' : Kernel}

namespace Kernel

/-- The same Espers have ended, with the same codes. -/
def SameFate (k k' : Kernel) : Prop := ∀ x, Espers.SameFate (k.espers x) (k'.espers x)

theorem SameFate.refl (k : Kernel) : k.SameFate k := fun x => Espers.SameFate.refl (k.espers x)

theorem SameFate.trans (h : k.SameFate k') (h' : k'.SameFate k'') : k.SameFate k'' :=
  fun x => (h x).trans (h' x)

theorem SameFate.set {i : Slot} {e : Esper} (h : Espers.SameFate (k.espers i) e) :
    k.SameFate (k.set i e) := by
  intro x
  rw [set_espers]
  split
  next hx => rw [hx]; exact h
  · exact Espers.SameFate.refl (k.espers x)

/-- The same Espers, whatever their states. -/
def SameIdentity (k k' : Kernel) : Prop := ∀ x, (k'.espers x).identity = (k.espers x).identity

theorem SameIdentity.refl (k : Kernel) : k.SameIdentity k := fun _ => rfl

theorem SameIdentity.trans (h : k.SameIdentity k') (h' : k'.SameIdentity k'') :
    k.SameIdentity k'' :=
  fun x => (h' x).trans (h x)

/-- Every Esper is steady, and no CPU has got or lost one. -/
structure Steady (k k' : Kernel) : Prop where
  espers : ∀ x, Espers.Steady (k.espers x) (k'.espers x)
  running : k'.running = k.running

theorem Steady.refl (k : Kernel) : k.Steady k := ⟨fun x => .refl (k.espers x), rfl⟩

theorem Steady.trans (h : k.Steady k') (h' : k'.Steady k'') : k.Steady k'' :=
  ⟨fun x => (h.espers x).trans (h'.espers x), h'.running.trans h.running⟩

theorem Steady.set {i : Slot} {e : Esper} (h : Espers.Steady (k.espers i) e) :
    k.Steady (k.set i e) := by
  refine ⟨fun x => ?_, set_running k i e⟩
  rw [set_espers]
  split
  next hx => rw [hx]; exact h
  · exact .refl (k.espers x)

theorem Steady.mapEspers {f : Esper → Esper} (h : ∀ e, Espers.Steady e (f e)) :
    k.Steady (k.mapEspers f) := ⟨fun x => h (k.espers x), rfl⟩

theorem Steady.sameFate (h : k.Steady k') : k.SameFate k' := fun x => (h.espers x).toSameFate

theorem Steady.identity (h : k.Steady k') : k.SameIdentity k' := fun x => (h.espers x).identity

end Kernel

variable {cpu : Cpu} {now : Nat} {i : Slot}

/-! ## Waking -/

open Kernel

theorem wakeSleepers_steady (k : Kernel) (now : Nat) : k.Steady (wakeSleepers k now) := by
  refine Steady.mapEspers fun e => ?_
  split
  next h => exact ⟨.of_woken h.1 rfl, rfl⟩
  · exact .refl e

theorem ipcWake_steady (k : Kernel) (kind : IpcWaitKind) (id : Option Nat) :
    k.Steady (ipcWake k kind id) := by
  refine Steady.mapEspers fun e => ?_
  split
  next h => exact ⟨.of_woken h.1 rfl, rfl⟩
  · exact .refl e

theorem wakePipe_steady (k : Kernel) (j : Nat) (writers : Bool) :
    k.Steady (wakePipe k j writers) := by
  refine Steady.mapEspers fun e => ?_
  split
  next h => exact ⟨.of_woken h.1 rfl, rfl⟩
  · exact .refl e

section
variable (k : Kernel) (cpu : Cpu) (i : Slot)

theorem detachTracees_steady (j : Slot) : k.Steady (detachTracees k j) := by
  refine Steady.mapEspers fun t => ?_
  split
  · dsimp only
    split
    next h => exact ⟨.of_woken h.1 rfl, rfl⟩
    · exact ⟨.of_eq rfl rfl, rfl⟩
  · exact .refl t

/-! ## Signals -/

theorem passTracer_state : (passTracer e sig).state = e.state := by
  rw [passTracer]
  split <;> rfl

theorem accepted_state :
    (accepted e sig).state = e.state ∨ (e.state = .waiting ∧ (accepted e sig).state = .ready) := by
  rw [accepted, endSuspend, passTracer_state]
  split
  · by_cases hw : e.state = .waiting
    · exact Or.inr ⟨hw, if_pos hw⟩
    · exact Or.inl (if_neg hw)
  · exact Or.inl (passTracer_state e sig)

theorem accepted_rest :
    (accepted e sig).exitCode = e.exitCode ∧ (accepted e sig).identity = e.identity := by
  rw [accepted, endSuspend, passTracer]
  split <;> split <;> exact ⟨rfl, rfl⟩

/-- A signal wakes at most an Esper that waits, and does not write its exit code or who it is. -/
theorem deliverSignalLocked_state :
    ((deliverSignalLocked e sig frame stackOk).esper.state = e.state ∨
      (e.state = .waiting ∧ (deliverSignalLocked e sig frame stackOk).esper.state = .ready)) ∧
    (deliverSignalLocked e sig frame stackOk).esper.exitCode = e.exitCode ∧
    (deliverSignalLocked e sig frame stackOk).esper.identity = e.identity := by
  have haccepted := And.intro (accepted_state e sig) (accepted_rest e sig)
  unfold deliverSignalLocked
  split
  · exact ⟨Or.inl rfl, rfl, rfl⟩
  split
  · exact ⟨Or.inl rfl, rfl, rfl⟩
  split
  · exact haccepted
  split
  · exact haccepted
  split
  · exact haccepted
  split
  · exact haccepted
  · exact haccepted

theorem deliverSignalLocked_steady : Steady e (deliverSignalLocked e sig frame stackOk).esper := by
  obtain ⟨hstate, hcode, hid⟩ := deliverSignalLocked_state e sig frame stackOk
  rcases hstate with hs | ⟨hw, hr⟩
  · exact ⟨.of_eq hs hcode, hid⟩
  · exact ⟨.of_woken hw hr, hid⟩

theorem prepInterruptWait_steady : Steady e (prepInterruptWait e) := by
  rw [prepInterruptWait]
  split
  next h => exact ⟨.of_woken h rfl, rfl⟩
  · exact .refl e

theorem wakeForChild_steady (p : Esper) : Steady p (wakeForChild p) := by
  rw [wakeForChild]
  split
  next h => exact ⟨.of_woken h.1 rfl, rfl⟩
  · exact .refl p

/-! ## Picking -/

theorem clearRunningSlot_espers :
    (clearRunningSlot k cpu i).espers = k.espers := by
  rw [clearRunningSlot]
  split <;> rfl

theorem clearRunningSlot_sameFate :
    k.SameFate (clearRunningSlot k cpu i) := by
  intro x
  rw [clearRunningSlot_espers]
  exact SameFate.refl (k.espers x)

end

theorem become_sameFate {e : Esper} {s : EsperState} (h : e.dead = false)
    (hs : s = .ready ∨ s = .running ∨ s = .waiting) : SameFate e (e.become s) :=
  .of_alive h (not_dead_of_state rfl hs)

theorem claim_sameFate (h : (k.espers i).dead = false) : k.SameFate (claim k cpu i) :=
  SameFate.set (become_sameFate h (by simp))

theorem claimable_ready (h : claimable k i = true) : (k.espers i).state = .ready := by
  simp only [claimable, decide_eq_true_eq] at h
  exact h.1

theorem claimable_alive (h : claimable k i = true) : (k.espers i).dead = false :=
  not_dead_of_state (claimable_ready h) (by simp)

section
variable (k : Kernel) (cpu : Cpu) (now : Nat) (after : Option Slot)

/-- What a pick does: sleepers may have been woken, and then at most one Esper is claimed that was
ready and on no CPU. -/
theorem pickAndClaim_spec :
    ∃ k₁, (k₁ = k ∨ k₁ = wakeSleepers k now) ∧
      ((pickAndClaim k cpu now after = (none, k₁)) ∨
        ∃ i, claimable k₁ i = true ∧ cpu.val < k.onlineCpus ∧
          pickAndClaim k cpu now after = (some i, claim k₁ cpu i)) := by
  rw [pickAndClaim]
  split
  · exact ⟨k, Or.inl rfl, Or.inl rfl⟩
  next honline =>
    refine ⟨if cpu.val = 0 then wakeSleepers k now else k, ?_, ?_⟩
    · split
      · exact Or.inr rfl
      · exact Or.inl rfl
    · cases hfind : (scanAfter after).find?
          (claimable (if cpu.val = 0 then wakeSleepers k now else k)) with
      | none => exact Or.inl (by simp only [hfind])
      | some j =>
        refine Or.inr ⟨j, List.find?_some hfind, by omega, ?_⟩
        simp only [hfind]

theorem pickAndClaim_sameFate :
    k.SameFate (pickAndClaim k cpu now after).2 := by
  obtain ⟨k₁, hk₁, hpick⟩ := pickAndClaim_spec k cpu now after
  have h₁ : k.SameFate k₁ := by
    rcases hk₁ with rfl | rfl
    · exact Kernel.SameFate.refl _
    · exact (wakeSleepers_steady k now).sameFate
  rcases hpick with hpick | ⟨j, hj, -, hpick⟩
  · rw [hpick]
    exact h₁
  · rw [hpick]
    exact h₁.trans (claim_sameFate (claimable_alive hj))

end

/-! ## Ending -/

/-- The parent is at most woken, and the child that has ended is at most reaped. -/
theorem maybeWakeParent_steady (h : (k.espers i).dead = true) : k.Steady (maybeWakeParent k i) := by
  rw [maybeWakeParent]
  split
  · exact .refl k
  next j hj =>
    dsimp only
    split
    next hwait =>
      split
      · have hp : (k.espers j).state = .waiting := by
          simp only [inWait4, decide_eq_true_eq] at hwait
          exact hwait.1
        have hset : k.Steady (k.set j (giveStatus (k.espers j) (k.espers i))) :=
          .set ⟨.of_woken hp rfl, rfl⟩
        refine hset.trans (.set ⟨⟨?_, fun _ => rfl⟩, rfl⟩)
        rw [(hset.espers i).dead, h]
        rfl
      · exact .refl k
    · split
      · exact .refl k
      · exact .set ((wakeForChild_steady _).trans (deliverSignalLocked_steady _ 17 none true))

section
variable (k : Kernel) (cpu : Cpu) (i : Slot) (code : Int)

theorem markExited_espers (x : Slot) :
    (markExited k cpu i code).espers x =
      if x = i then { k.espers i with state := .exited, exitCode := code } else k.espers x := by
  rw [markExited, clearRunningSlot_espers, set_espers]

/-- After the Esper has exited, its parent and its tracees may be woken. -/
theorem endWith_steady_markExited : (markExited k cpu i code).Steady (endWith k cpu i code) := by
  refine (maybeWakeParent_steady ?_).trans (detachTracees_steady _ i)
  rw [markExited_espers, if_pos rfl]
  rfl

/-- Whoever ends has ended, with the code. -/
theorem endWith_dead :
    ((endWith k cpu i code).espers i).dead = true ∧
    ((endWith k cpu i code).espers i).exitCode = code := by
  obtain ⟨hdead, hcode⟩ := (endWith_steady_markExited k cpu i code).sameFate i
  rw [markExited_espers, if_pos rfl] at hdead hcode
  exact ⟨hdead.trans rfl, hcode rfl⟩

end

theorem killFatal_dead (k : Kernel) (i : Slot) (sig : Nat) :
    ((killFatal k i sig).espers i).dead = true ∧ ((killFatal k i sig).espers i).exitCode = 128 +
    sig := by
  rw [killFatal]
  dsimp only
  split
  · simp [Esper.dead]
  · split
    · refine ⟨by simp [Esper.dead, Esper.become], ?_⟩
      rename_i j _ hp
      by_cases hij : i = j
      · -- it would be its own parent, but that one has just ended
        subst hij
        simp at hp
      · simp [hij, Esper.become]
    · simp [Esper.dead]

theorem endWith_identity (k : Kernel) (cpu : Cpu) (i : Slot) (code : Int) :
    k.SameIdentity (endWith k cpu i code) := by
  have hmark : k.SameIdentity (markExited k cpu i code) := by
    intro x
    rw [markExited_espers]
    split
    next h => rw [h]; rfl
    · rfl
  exact hmark.trans (endWith_steady_markExited k cpu i code).identity

end IndexOS.Espers
