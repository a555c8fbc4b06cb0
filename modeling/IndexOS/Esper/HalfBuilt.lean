import IndexOS.Esper.Calm
import IndexOS.Esper.Cloning

/-!
# Half-built children are left alone

If every step is gentle, then however the steps of the CPUs are interleaved no CPU runs a child
before it is ready, every child is what `linux_clone` made when it first runs, and the references
that were taken for a child that a group of threads took along with it are dropped once.

* `takenRefs`, `stripRefs_perm` — what is taken for a child, and that its release drops it;
* `Stage` — how a child stands whose call is in progress: it waits in its hiding place, or it has
  ended and is to be released, or it has been released;
* `Inv`, `Inv.step` — the invariant, which every gentle step keeps;
* **`whole_of_gentle`** — so the children are whole in every state of the run.
-/

set_option autoImplicit false

namespace IndexOS.Espers

open Kernel CloneSystem Traces List
open Function (update update_apply update_eq_self update_of_ne update_self)
open Descriptors (kMaxEspers kMaxFds Fd Obj)

variable {k k' : Kernel} {x i t : Slot} {cpu c : Cpu} {e e' e'' : Esper} {sig : Nat}

/-! ## The references of a child -/

/-- The references taken for a child after `done` assignments. -/
def takenRefs (made : Esper × Estate) (done : Nat) : List Ref :=
  (if done = 0 then [] else spaceRefs made.1.mm made.2.images) ++
    (range (done - 6)).flatMap fun n => fdRef (made.2.fds n)

theorem takenRefs_congr {u : Estate} {n : Nat} (h : e'.mm = e.mm) :
    takenRefs (e', u) n = takenRefs (e, u) n := by
  simp [takenRefs, h]

section
variable (p : Esper) (t : Estate) (κ : Cloning) (n : Nat) (u : Estate)

theorem takenRefs_assign (made : Esper × Estate) :
    takenRefs made n ++ assignRefs p t κ n = takenRefs (assign p t κ n made) (n + 1) := by
  rcases n with _ | _ | _ | _ | _ | _ | n
  case succ.succ.succ.succ.succ.succ =>
    -- the descriptors copied before are not written again
    have hbefore : ∀ m ∈ range n,
        fdRef (update made.2.fds n (t.fds n) m) = fdRef (made.2.fds m) := by
      intro m hm
      rw [update_of_ne (Nat.ne_of_lt (mem_range.1 hm))]
    simp [takenRefs, assignRefs, assign, range_succ, flatMap_congr hbefore]
  all_goals simp [takenRefs, assignRefs, assign]

/-- What a signal has noted in the child stays there. -/
theorem assign_spared (e : Esper) (m : Sigset) :
    assign p t κ n ({ e with sigPending := m }, u) =
      ({ (assign p t κ n (e, u)).1 with sigPending := m }, (assign p t κ n (e, u)).2) := by
  rcases n with _ | _ | _ | _ | _ | _ | n <;> rfl

theorem assign_state (e : Esper) : (assign p t κ n (e, u)).1.state = e.state := by
  rcases n with _ | _ | _ | _ | _ | _ | n <;> rfl

/-- The address space is set by the first assignment. -/
theorem assign_mm (e : Esper) (hn : 0 < n) : (assign p t κ n (e, u)).1.mm = e.mm := by
  rcases n with _ | _ | _ | _ | _ | _ | n
  · cases hn
  all_goals rfl

theorem Calm.assign (h : Calm e) : Calm (assign p t κ n (e, u)).1 := by
  rcases n with _ | _ | _ | _ | _ | _ | n <;>
    exact ⟨h.state, h.pipe, h.ipc, h.futex, h.sleep, h.suspend, h.tracer⟩

end

/-- Whoever is released when all its descriptors have been copied with their references drops what
was taken. -/
theorem stripRefs_perm {u : Estate} (hplain : ∀ n < kMaxFds, copiedBare (u.fds n) = false) :
    (stripRefs e u true).Perm (takenRefs (e, u) kAssignments) := by
  have hsame : ∀ n ∈ range kMaxFds, heldRef (u.fds n) = fdRef (u.fds n) := by
    intro n hn
    rw [fdRef, hplain n (mem_range.1 hn), if_neg (by decide)]
  rw [stripRefs, if_pos rfl, takenRefs, if_neg (by decide), flatMap_congr hsame]
  exact perm_append_comm

/-! ## The invariant -/

/-- The child waits in its hiding place. -/
structure Hidden (s : CloneSystem) (κ : Cloning) : Prop where
  calm : Calm (s.kernel.espers κ.child)
  waits : (s.kernel.espers κ.child).state = .waiting
  spared : Spared κ.made.1 (s.kernel.espers κ.child)
  estate : s.estate κ.child = κ.made.2
  dropped : κ.dropped = []
  taken : κ.taken = takenRefs (s.kernel.espers κ.child, s.estate κ.child) κ.done
  /-- the first assignment gives it an address space -/
  bare : κ.done = 0 → (s.kernel.espers κ.child).mm = none

/-- The child at `x` has ended after `done` assignments: it has been released, or a CPU is about to
release it and it has all that was taken. -/
def Killed (s : CloneSystem) (x : Slot) (taken dropped : List Ref) (done : Nat) : Prop :=
  (s.kernel.espers x).dead = true ∧
    (((s.kernel.espers x).mm = none ∧ done = kAssignments ∧ dropped.Perm taken) ∨
      (s.Due x ∧ 0 < done ∧ dropped = [] ∧
        taken = takenRefs (s.kernel.espers x, s.estate x) done))

/-- How a child stands whose call is in progress. -/
def Stage (s : CloneSystem) (κ : Cloning) : Prop :=
  Hidden s κ ∨ Killed s κ.child κ.taken κ.dropped κ.done

/-- The child at `x` is ready, and as `linux_clone` made it. -/
structure Fresh (s : CloneSystem) (x : Slot) (p : Esper × Estate) : Prop where
  calm : Calm (s.kernel.espers x)
  ready : (s.kernel.espers x).state = .ready
  inherited : inherited (s.kernel.espers x, s.estate x) = inherited p

structure Inv (s : CloneSystem) : Prop where
  stage : ∀ c κ, s.clones c = some κ → Stage s κ ∧ s.kernel.running c = some κ.parent
  fresh : ∀ x p, s.published x = some p → Fresh s x p
  /-- no two calls build one child -/
  apart : ∀ c d κ κ', s.clones c = some κ → s.clones d = some κ' → κ.child = κ'.child → c = d
  /-- no CPU runs a child before it is picked -/
  idle : ∀ x, s.NotRun x → ∀ d, s.kernel.running d ≠ some x
  /-- no CPU is to close the descriptors of a child alone -/
  duty : ∀ d, ∀ u ∈ s.duty d, s.NotRun u.slot →
    (s.kernel.espers u.slot).dead = true ∧ u.image.isSome = true
  finished : ∀ b ∈ s.finished, b.killed = true → b.dropped.Perm b.taken
  resumed : ∀ r ∈ s.resumed, inherited r.2 = inherited r.1

variable {s s' : CloneSystem} {κ : Cloning} {duty : Cpu → List Duty} {r : Option Slot × Kernel}
  {est : Slot → Estate}

section
variable (h : Inv s)
include h

theorem Inv.whole : Whole s where
  hidden c κ hκ d hd := absurd hd (h.idle _ (Or.inl ⟨c, κ, hκ, rfl⟩) d)
  unchanged := h.resumed
  released := h.finished

/-- A child that is being built waits for nothing, or has ended. -/
theorem Inv.half (hx : s.HalfBuilt x) :
    (Calm (s.kernel.espers x) ∧ (s.kernel.espers x).state = .waiting) ∨
      (s.kernel.espers x).dead = true := by
  obtain ⟨c, κ, hκ, rfl⟩ := hx
  exact (h.stage c κ hκ).1.imp (fun hh => ⟨hh.calm, hh.waits⟩) fun hh => hh.1

/-- A child that waits for nothing and is not being built any more is ready. -/
theorem Inv.ready_or (hx : s.NotRun x) {P : Prop} (hP : s.HalfBuilt x → P) :
    (s.kernel.espers x).state = .ready ∨ P := by
  by_cases hhalf : s.HalfBuilt x
  · exact Or.inr (hP hhalf)
  · obtain ⟨p, hp⟩ := hx.resolve_left hhalf
    exact Or.inl (h.fresh x p hp).ready

theorem Inv.running_ne (hi : s.kernel.running c = some i) (hx : s.NotRun x) : x ≠ i := by
  rintro rfl
  exact h.idle x hx c hi

end

theorem CloneSystem.EachChild.of {P : Slot → Prop} (h : s.EachChild P) (hx : s.HalfBuilt x)
    (halive : (s.kernel.espers x).dead = false) : P x := by
  obtain ⟨c, κ, hκ, rfl⟩ := hx
  exact h c κ hκ halive

theorem inherited_spared (h : Spared e e') (t : Estate) : inherited (e', t) = inherited (e, t) := by
  obtain ⟨m, rfl⟩ := h
  rfl

/-- What a step leaves of the child at `x`, if it is not at work on it: the child stays, or it has
ended and is to be released. -/
structure Lets (s s' : CloneSystem) (x : Slot) : Prop where
  estate : s'.estate x = s.estate x
  due : s.Due x → s'.Due x
  stays : Stays (s.kernel.espers x) (s'.kernel.espers x) ∨
    (s'.Due x ∧ (s'.kernel.espers x).mm = (s.kernel.espers x).mm)

theorem Lets.rests (h : Lets s s' x) (hdead : (s.kernel.espers x).dead = true) :
    (s'.kernel.espers x).dead = true ∧ (s'.kernel.espers x).mm = (s.kernel.espers x).mm :=
  h.stays.elim (fun hs => hs.rests hdead) fun hd => ⟨hd.1.1, hd.2⟩

/-- A child that was to be released is still, if it is not taken from the lists. -/
theorem CloneSystem.Due.stays (h : s.Due x)
    (hstays : Stays (s.kernel.espers x) (s'.kernel.espers x))
    (hduty : ∀ d u, u ∈ s.duty d → u.slot = x → u ∈ s'.duty d) : s'.Due x := by
  obtain ⟨hdead, d, mm, fatal, hmem, hmm⟩ := h
  obtain ⟨hdead', hmm'⟩ := hstays.rests hdead
  exact ⟨hdead', d, mm, fatal, hduty d _ hmem rfl, hmm'.trans hmm⟩

theorem Lets.of_duty (hestate : s'.estate x = s.estate x)
    (hstays : Stays (s.kernel.espers x) (s'.kernel.espers x))
    (hduty : ∀ d u, u ∈ s.duty d → u.slot = x → u ∈ s'.duty d) : Lets s s' x :=
  ⟨hestate, fun hdue => hdue.stays hstays hduty, Or.inl hstays⟩

theorem Killed.lets {taken dropped : List Ref} {done : Nat} (h : Killed s x taken dropped done)
    (hx : Lets s s' x) : Killed s' x taken dropped done := by
  obtain ⟨hdead, hcase⟩ := h
  obtain ⟨hdead', hmm⟩ := hx.rests hdead
  refine ⟨hdead', ?_⟩
  rcases hcase with ⟨hnone, hrest⟩ | ⟨hdue, hdone, hdropped, htaken⟩
  · exact Or.inl ⟨hmm.trans hnone, hrest⟩
  · refine Or.inr ⟨hx.due hdue, hdone, hdropped, ?_⟩
    rw [htaken, hx.estate, takenRefs_congr hmm]

/-- A child that is being built stays so, or it has been taken along with its group of threads. -/
theorem Stage.lets (h : Stage s κ) (hx : Lets s s' κ.child) : Stage s' κ := by
  rcases h with hh | hh
  swap
  · exact Or.inr (hh.lets hx)
  -- what has been taken for it is what it has
  have htaken (hmm : (s'.kernel.espers κ.child).mm = (s.kernel.espers κ.child).mm) :
      κ.taken = takenRefs (s'.kernel.espers κ.child, s'.estate κ.child) κ.done := by
    rw [hh.taken, hx.estate, takenRefs_congr hmm]
  rcases hx.stays with hstays | ⟨hdue, hmm⟩
  · rcases hstays.kept hh.calm with hspared | ⟨hready, -⟩
    · exact Or.inl ⟨hspared.calm hh.calm, hspared.state.trans hh.waits, hh.spared.trans hspared,
        hx.estate.trans hh.estate, hh.dropped, htaken hspared.mm,
        fun h0 => hspared.mm.trans (hh.bare h0)⟩
    · cases hh.waits.symm.trans hready
  · refine Or.inr ⟨hdue.1, Or.inr ⟨hdue, Nat.pos_of_ne_zero fun h0 => ?_, hh.dropped, htaken hmm⟩⟩
    obtain ⟨-, -, mm, -, -, hsome⟩ := hdue
    cases (hmm.trans (hh.bare h0)).symm.trans hsome

theorem Fresh.lets {p : Esper × Estate} (h : Fresh s x p) (hx : Lets s s' x)
    (halive : (s'.kernel.espers x).dead = false) : Fresh s' x p := by
  rcases hx.stays with hstays | ⟨hdue, -⟩
  · rcases hstays.kept h.calm with hspared | ⟨-, hdead⟩
    · refine ⟨hspared.calm h.calm, hspared.state.trans h.ready, ?_⟩
      rw [inherited_spared hspared, hx.estate]
      exact h.inherited
    · cases halive.symm.trans hdead
  · cases halive.symm.trans hdue.1

/-! ## Steps

What a step must do to keep the invariant: `W` are the slots it is at work on, for which the
invariant is shown anew.  The other children are left alone, but some may have run or ended, and
those that were being built and have ended are on the list of a CPU. -/

theorem Inv.next (h : Inv s) (W : Slot → Prop)
    (hclones : ∀ d κ, s'.clones d = some κ → s'.kernel.running d = some κ.parent ∧
      ((s.clones d = some κ ∧ ¬ W κ.child) ∨ (W κ.child ∧ Stage s' κ ∧
        ∀ d' κ', s'.clones d' = some κ' → κ'.child = κ.child → d' = d)))
    (hpublished : ∀ x p, s'.published x = some p →
      ((s'.kernel.espers x).dead = false ∧ s.published x = some p ∧ ¬ W x) ∨ (W x ∧ Fresh s' x p))
    (hfinished : ∀ b ∈ s'.finished, b.killed = true → b ∈ s.finished ∨ b.dropped.Perm b.taken)
    (hresumed : ∀ r ∈ s'.resumed, r ∈ s.resumed ∨ inherited r.2 = inherited r.1)
    (hlets : ∀ x, s.NotRun x → s'.NotRun x → ¬ W x → Lets s s' x)
    (hidle : ∀ x, s'.NotRun x → ∀ d, s'.kernel.running d ≠ some x)
    (hduty : ∀ d u, u ∈ s'.duty d → s'.NotRun u.slot → (u ∈ s.duty d ∧ ¬ W u.slot) ∨
      ((s'.kernel.espers u.slot).dead = true ∧ u.image.isSome = true)) : Inv s' := by
  have hnotRun : ∀ x, ¬ W x → s'.NotRun x → s.NotRun x := by
    grind [NotRun, Option.mem_def]
  constructor
  case stage =>
    intro d κ hκ
    obtain ⟨hparent, ⟨hκ', hW⟩ | ⟨-, hstage, -⟩⟩ := hclones d κ hκ
    · have hx := hlets _ (Or.inl ⟨d, κ, hκ', rfl⟩) (Or.inl ⟨d, κ, hκ, rfl⟩) hW
      exact ⟨(h.stage d κ hκ').1.lets hx, hparent⟩
    · exact ⟨hstage, hparent⟩
  case fresh =>
    intro x p hp
    rcases hpublished x p hp with ⟨halive, hp', hW⟩ | ⟨-, hfresh⟩
    · exact (h.fresh x p hp').lets (hlets x (Or.inr ⟨p, hp'⟩) (Or.inr ⟨p, hp⟩) hW) halive
    · exact hfresh
  case apart =>
    have happart := h.apart
    grind
  case idle => exact hidle
  case duty =>
    intro d u hu hx
    rcases hduty d u hu hx with ⟨hu', hW⟩ | hnew
    · have hx' := hnotRun _ hW hx
      obtain ⟨hdead, himage⟩ := h.duty d u hu' hx'
      exact ⟨((hlets _ hx' hx hW).rests hdead).1, himage⟩
    · exact hnew
  case finished => exact fun b hb hkilled =>
    (hfinished b hb hkilled).elim (h.finished b · hkilled) id
  case resumed => exact fun r hr => (hresumed r hr).elim (h.resumed r) id

/-! ### Outside of `linux_clone` -/

theorem settle_published {p : Esper × Estate} (hp : s.settle.published x = some p) :
    (s.kernel.espers x).dead = false ∧ s.published x = some p := by
  cases hdead : (s.kernel.espers x).dead with
  | true => simp [settle, hdead] at hp
  | false => exact ⟨rfl, by simpa [settle, hdead] using hp⟩

/-- The CPU has picked somebody, after it may have ended others. -/
theorem Inv.resume (h : Inv s) (hc : s.clones c = none)
    (hpicks : Picks False s.kernel c r)
    (hleaves : ∀ x, s.NotRun x → Leaves (s.kernel.espers x) r x ∨
      (({ s with duty := duty, kernel := r.2 } : CloneSystem).Due x ∧
        (r.2.espers x).mm = (s.kernel.espers x).mm))
    (hmore : ∀ d u, u ∈ s.duty d → u ∈ duty d)
    (hnew : ∀ d u, u ∈ duty d → u ∈ s.duty d ∨
      ((r.2.espers u.slot).dead = true ∧ u.image.isSome = true)) :
    Inv (({ s with duty := duty } : CloneSystem).resume r).settle := by
  generalize hs' : (({ s with duty := duty } : CloneSystem).resume r).settle = s'
  have hkernel : s'.kernel = r.2 := hs' ▸ rfl
  have hclones : s'.clones = s.clones := hs' ▸ rfl
  have hpublished : ∀ x p, s'.published x = some p →
      (r.2.espers x).dead = false ∧ r.1 ≠ some x ∧ s.published x = some p := by
    intro x p hp
    rw [← hs'] at hp
    obtain ⟨halive, hp⟩ := settle_published hp
    simp only [CloneSystem.resume] at halive hp
    grind
  -- whoever has been picked was no child or a ready one
  have hclaimed : ∀ x, s.NotRun x → r.1 = some x → Leaves (s.kernel.espers x) r x := by
    intro x hx hr
    refine (hleaves x hx).resolve_right fun hdue => ?_
    cases hdue.1.1.symm.trans (hpicks.alive x hr)
  have hnotRun : ∀ x, s'.NotRun x → s.NotRun x ∧ r.1 ≠ some x := by
    rintro x (⟨d, κ, hκ, rfl⟩ | ⟨p, hp⟩)
    · have hx : s.NotRun κ.child := Or.inl ⟨d, κ, hclones ▸ hκ, rfl⟩
      refine ⟨hx, fun hr => ?_⟩
      obtain ⟨halive, hready⟩ := (hclaimed _ hx hr).claimed hr
      rcases (h.stage d κ (hclones ▸ hκ)).1 with hh | hd
      · cases hh.waits.symm.trans (hready hh.calm).1
      · cases hd.1.symm.trans halive
    · obtain ⟨-, hr, hp'⟩ := hpublished x p hp
      exact ⟨Or.inr ⟨p, hp'⟩, hr⟩
  refine h.next (fun _ => False) (fun d κ hκ => ?_) (fun x p hp => ?_)
    (fun b hb _ => Or.inl (by rwa [← hs'] at hb)) (fun q hq => ?_) (fun x hx hx' _ => ?_)
    (fun x hx d => ?_) fun d u hu _ => ?_
  · have hstage := h.stage d κ
    have hothers := hpicks.others d
    grind
  · grind
  · rw [← hs'] at hq
    refine (mem_append.1 hq).symm.imp_right fun hq => ?_
    -- the one that was picked is as it was, but for its state
    obtain ⟨x, hx, hq⟩ := mem_flatMap.1 hq
    obtain ⟨p, hp, rfl⟩ := mem_map.1 hq
    have hp' : s.published x = some p := Option.mem_toList.1 hp
    have hr : r.1 = some x := Option.mem_toList.1 hx
    obtain ⟨hcalm, -, hsame⟩ := h.fresh x p hp'
    obtain ⟨-, e', hspared, he'⟩ := ((hclaimed x (Or.inr ⟨p, hp'⟩) hr).claimed hr).2 hcalm
    rw [he']
    exact (inherited_spared hspared (s.estate x)).trans hsame
  · have hne := (hnotRun x hx').2
    rw [← hs']
    rcases hleaves x hx with hl | ⟨hdue, hmm⟩
    · exact .of_duty rfl (hl.stays hne) fun d u hu _ => hmore d u hu
    · exact ⟨rfl, fun _ => hdue, Or.inr ⟨hdue, hmm⟩⟩
  · obtain ⟨hx', hne⟩ := hnotRun x hx
    have hothers := hpicks.others d
    have hidle := h.idle x hx' d
    cases hr : r.1 with
    | none =>
      have hnone := hpicks.none hr
      grind
    | some n =>
      have hpicked := (hpicks.picked n hr).1
      grind
  · rw [← hs'] at hu ⊢
    exact (hnew d u hu).imp_left fun hu' => ⟨hu', id⟩

/-- A section that picks, and ends nobody but perhaps the running Esper. -/
theorem Inv.pick (h : Inv s) (hc : s.clones c = none)
    (hpicks : Picks False s.kernel c r)
    (hleaves : ∀ x, s.NotRun x → Leaves (s.kernel.espers x) r x) :
    Inv (s.resume r).settle :=
  h.resume hc hpicks (fun x hx => Or.inl (hleaves x hx)) (fun _ _ hu => hu) fun _ _ hu => Or.inl hu

theorem Inv.pickFrom (h : Inv s) (hc : s.clones c = none) (hfrees : Frees False s.kernel k c)
    (hstays : ∀ x, s.NotRun x → Stays (s.kernel.espers x) (k.espers x)) (now : Nat)
    (after : Option Slot) : Inv (s.resume (pickAndClaim k c now after)).settle :=
  h.pick hc (hfrees.picks (pickAndClaim_picks k c now after)) fun x hx =>
    (hstays x hx).pick c now after

/-- The section only looks at the table of Espers, and ends no child that is being built. -/
theorem Inv.section (h : Inv s)
    (hrunning : ∀ d, k.running d = s.kernel.running d ∨
      (s.clones d = none ∧ ∀ x, s.NotRun x → k.running d ≠ some x))
    (hestate : ∀ x, s.NotRun x → est x = s.estate x)
    (hstays : ∀ x, s.NotRun x → Stays (s.kernel.espers x) (k.espers x))
    (hdue : ∀ x, s.NotRun x → s.Due x →
      ({ s with kernel := k, estate := est, duty := duty } : CloneSystem).Due x)
    (hnew : ∀ d u, u ∈ duty d → u ∈ s.duty d ∨
      ((s.kernel.espers u.slot).dead = false ∧ (k.espers u.slot).dead = true)) :
    Inv ({ s with kernel := k, estate := est, duty := duty } : CloneSystem).settle := by
  refine h.next (fun _ => False) (fun d κ hκ => ⟨?_, Or.inl ⟨hκ, id⟩⟩)
    (fun x p hp => Or.inl ⟨(settle_published hp).1, (settle_published hp).2, id⟩)
    (fun b hb _ => Or.inl hb) (fun _ hr => Or.inl hr)
    (fun x hx _ _ => ⟨hestate x hx, hdue x hx, Or.inl (hstays x hx)⟩) (fun x hx d => ?_)
    fun d u hu hx => ?_
  · rcases hrunning d with hsame | ⟨hnone, -⟩
    · exact hsame.trans (h.stage d κ hκ).2
    · cases hnone.symm.trans hκ
  · have hx' : s.NotRun x := hx.imp_right fun ⟨p, hp⟩ => ⟨p, (settle_published hp).2⟩
    rcases hrunning d with hsame | ⟨-, hne⟩
    · exact hsame.symm ▸ h.idle x hx' d
    · exact hne x hx'
  · refine (hnew d u hu).imp (fun hu' => ⟨hu', id⟩) fun ⟨halive, hdead⟩ => absurd hdead ?_
    -- none of those that have ended is a child that was being built
    rw [Bool.not_eq_true]
    rcases hx with hx | ⟨p, hp⟩
    · rcases h.half hx with ⟨hcalm, hwait⟩ | hd
      · rcases (hstays _ (Or.inl hx)).kept hcalm with hspared | ⟨hready, -⟩
        · exact (hspared.calm hcalm).alive
        · cases hwait.symm.trans hready
      · cases halive.symm.trans hd
    · exact (settle_published hp).1

/-- Nobody is to be released. -/
theorem Inv.quiet (h : Inv s) (hrunning : k.running = s.kernel.running)
    (hstays : ∀ x, s.NotRun x → Stays (s.kernel.espers x) (k.espers x))
    (hestate : ∀ x, s.NotRun x → est x = s.estate x) :
    Inv ({ s with kernel := k, estate := est } : CloneSystem).settle :=
  h.section (fun d => Or.inl (congrFun hrunning d)) hestate hstays
    (fun x hx hdue => hdue.stays (hstays x hx) fun _ _ hu _ => hu) fun _ _ hu => Or.inl hu

theorem Inv.settle (h : Inv s) : Inv s.settle :=
  h.quiet rfl (fun _ _ => .of_eq rfl) fun _ _ => rfl

/-- What a CPU notes of those that it has ended. -/
theorem mem_noteEnded {image : Option (Nat × Bool)} {d : Cpu} {u : Duty} :
    u ∈ (s.noteEnded c k image).duty d ↔ u ∈ s.duty d ∨ (d = c ∧
      (s.kernel.espers u.slot).dead = false ∧ (k.espers u.slot).dead = true ∧ u.image = image) := by
  obtain ⟨x, im⟩ := u
  simp only [noteEnded, ended, update_apply]
  grind

theorem Inv.noteEnded (h : Inv s) (hrunning : k.running = s.kernel.running)
    (hstays : ∀ x, s.NotRun x → Stays (s.kernel.espers x) (k.espers x)) (c : Cpu) :
    Inv (s.noteEnded c k none).settle := by
  refine h.section (fun d => Or.inl (congrFun hrunning d)) (fun _ _ => rfl) hstays
    (fun x hx hdue => hdue.stays (hstays x hx) fun d u hu _ => ?_) fun d u hu => ?_
  · exact mem_noteEnded.2 (Or.inl hu)
  · exact (mem_noteEnded.1 hu).imp_right fun hnew => ⟨hnew.2.1, hnew.2.2.1⟩

/-! ### At one slot -/

/-- Only the slot `n` changes. -/
theorem Inv.work (h : Inv s) {n : Slot} (hidle : s'.NotRun n → ∀ d, s.kernel.running d ≠ some n)
    (hrunning : s'.kernel.running = s.kernel.running) (hresumed : s'.resumed = s.resumed)
    (hothers : ∀ x, s.NotRun x → x ≠ n →
      s'.kernel.espers x = s.kernel.espers x ∧ s'.estate x = s.estate x)
    (hmore : ∀ d u, u ∈ s.duty d → u.slot ≠ n → u ∈ s'.duty d)
    (hduty : ∀ d u, u ∈ s'.duty d → u ∈ s.duty d ∧ (u.slot = n → s'.NotRun n →
      (s'.kernel.espers n).dead = true ∧ u.image.isSome = true))
    (hclones : ∀ d κ, s'.clones d = some κ → (s.clones d = some κ ∧ κ.child ≠ n) ∨
      (κ.child = n ∧ s.kernel.running d = some κ.parent ∧ Stage s' κ ∧
        ∀ d' κ', s'.clones d' = some κ' → κ'.child = n → d' = d))
    (hpublished : ∀ x p, s'.published x = some p →
      (s.published x = some p ∧ x ≠ n) ∨ (x = n ∧ Fresh s' n p))
    (hfinished : ∀ b ∈ s'.finished, b.killed = true → b ∈ s.finished ∨ b.dropped.Perm b.taken) :
    Inv s' := by
  refine h.next (· = n) (fun d κ hκ => ?_) (fun x p hp => ?_) hfinished
    (fun r hr => Or.inl (hresumed ▸ hr)) (fun x hx _ hne => ?_) (fun x hx d => ?_)
    fun d u hu hx => ?_
  · have hstage := h.stage d κ
    grind
  · have halive := fun hp' => (h.fresh x p hp').calm.alive
    grind [NotRun, Option.mem_def]
  · obtain ⟨hsame, hestate⟩ := hothers x hx hne
    exact .of_duty hestate (.of_eq hsame) fun d u hu hux => hmore d u hu (hux ▸ hne)
  · rw [hrunning]
    have hold := fun hx' => h.idle x hx' d
    grind [NotRun, Option.mem_def]
  · grind

theorem esperMakeReady_spec (k : Kernel) (i : Slot) :
    (esperMakeReady k i).running = k.running ∧
      ∀ x, x ≠ i → (esperMakeReady k i).espers x = k.espers x := by
  rw [esperMakeReady]
  split
  · exact ⟨rfl, fun x hx => by rw [set_of_ne hx]⟩
  · exact ⟨rfl, fun _ _ => rfl⟩

section
variable (h : Inv s) (hκ : s.clones c = some κ)
include h hκ

/-- A child that is being built has not been published. -/
theorem Inv.published_half : s.published κ.child = none := by
  cases hp : s.published κ.child with
  | none => rfl
  | some p =>
    obtain ⟨hcalm, hready, -⟩ := h.fresh _ p hp
    have halive := hcalm.alive
    rcases h.half ⟨c, κ, hκ, rfl⟩ with hwait | hd <;> grind

/-- A step of `linux_clone` at its child. -/
theorem Inv.build {o : Option Cloning} (hclones : s'.clones = update s.clones c o)
    (hrunning : s'.kernel.running = s.kernel.running) (hresumed : s'.resumed = s.resumed)
    (hduty : s'.duty = s.duty)
    (hothers : ∀ x, s.NotRun x → x ≠ κ.child →
      s'.kernel.espers x = s.kernel.espers x ∧ s'.estate x = s.estate x)
    (hdead : (s.kernel.espers κ.child).dead = true → (s'.kernel.espers κ.child).dead = true)
    (hstage : ∀ κ', o = some κ' → κ'.child = κ.child ∧ κ'.parent = κ.parent ∧ Stage s' κ')
    (hpublished : ∀ x p, s'.published x = some p →
      s.published x = some p ∨ (x = κ.child ∧ Fresh s' κ.child p))
    (hfinished : ∀ b ∈ s'.finished, b.killed = true → b ∈ s.finished ∨ b.dropped.Perm b.taken) :
    Inv s' := by
  have hnotRun : s.NotRun κ.child := Or.inl ⟨c, κ, hκ, rfl⟩
  have hunpublished := h.published_half hκ
  refine h.work (fun _ => h.idle _ hnotRun) hrunning hresumed hothers (fun d u hu _ => hduty ▸ hu)
    (fun d u hu => ?_) (fun d κ' hκ' => ?_) (fun x p hp => ?_) hfinished
  · have hmine := h.duty d u
    grind
  · have hone := fun d' κ₁ hκ₁ => h.apart d' c κ₁ κ hκ₁ hκ
    have hparent := (h.stage c κ hκ).2
    have hown : ∀ d, s'.clones d = if d = c then o else s.clones d := fun d => by
      rw [hclones, update_apply]
    grind
  · grind

theorem Inv.assignNext (hlt : κ.done < kAssignments) : Inv (s.assignNext c κ) := by
  generalize hp : s.kernel.espers κ.parent = p
  generalize ht : s.estate κ.parent = t
  generalize hs' : s.assignNext c κ = s'
  have hchild : s'.kernel.espers κ.child =
      (assign p t κ κ.done (s.kernel.espers κ.child, s.estate κ.child)).1 := by
    simp [← hs', CloneSystem.assignNext, hp, ht]
  have hestate : s'.estate κ.child =
      (assign p t κ κ.done (s.kernel.espers κ.child, s.estate κ.child)).2 := by
    simp [← hs', CloneSystem.assignNext, hp, ht]
  have hdead : (s'.kernel.espers κ.child).dead = (s.kernel.espers κ.child).dead := by
    rw [hchild, Esper.dead, Esper.dead, assign_state]
  -- what has been taken is what the child has then
  have htaken (h₀ : κ.taken = takenRefs (s.kernel.espers κ.child, s.estate κ.child) κ.done) :
      κ.taken ++ assignRefs p t κ κ.done =
        takenRefs (s'.kernel.espers κ.child, s'.estate κ.child) (κ.done + 1) := by
    rw [h₀, takenRefs_assign p t κ, hchild, hestate]
  rw [← hs'] at hchild hestate hdead htaken ⊢
  refine h.build hκ rfl rfl rfl rfl (fun x _ hx => by simp [CloneSystem.assignNext, hx])
    (fun hd => hdead.trans hd) (fun κ' hκ' => ?_) (fun _ _ hp => Or.inl hp) fun _ hb _ => Or.inl hb
  cases hκ'
  refine ⟨rfl, rfl, ?_⟩
  rw [hp, ht]
  rcases (h.stage c κ hκ).1 with hh | ⟨hd, ⟨-, hall, -⟩ | ⟨hdue, hdone, hdropped, h₀⟩⟩
  · obtain ⟨m, hm⟩ := hh.spared
    refine Or.inl ⟨?_, ?_, ⟨m, ?_⟩, ?_, hh.dropped, htaken hh.taken,
      fun h0 => absurd h0 (Nat.succ_ne_zero _)⟩
    · rw [hchild]
      exact hh.calm.assign p t κ κ.done _
    · rw [hchild, assign_state]
      exact hh.waits
    · rw [hchild, hm, hh.estate, assign_spared]
    · rw [hestate, hm, hh.estate, assign_spared]
  · exact absurd hall (Nat.ne_of_lt hlt)
  · -- the space of a child that has ended stays, so it is still to be released
    have hmm : ((s.assignNext c κ).kernel.espers κ.child).mm = (s.kernel.espers κ.child).mm := by
      rw [hchild, assign_mm p t κ κ.done _ _ hdone]
    obtain ⟨-, d, mm, fatal, hmem, hsome⟩ := hdue
    exact Or.inr ⟨hdead.trans hd, Or.inr ⟨⟨hdead.trans hd, d, mm, fatal, hmem, hmm.trans hsome⟩,
      Nat.succ_pos _, hdropped, htaken h₀⟩⟩

theorem Inv.abandon :
    Inv { s with
      kernel := s.kernel.set κ.child ((s.kernel.espers κ.child).become .free)
      clones := update s.clones c none } := by
  refine h.build hκ rfl rfl rfl rfl (fun x _ hx => by simp [hx]) (fun _ => ?_)
    (fun κ' hκ' => by cases hκ') (fun _ _ hp => Or.inl hp) fun _ hb _ => Or.inl hb
  rw [set_self]
  rfl

/-- The child is ready, if it has not ended; the parent may have been prepared for its wait. -/
theorem Inv.finish
    (hgone : (s.kernel.espers κ.child).dead = true → (s.kernel.espers κ.child).mm = none)
    (hrunning : k.running = s.kernel.running)
    (hchild : k.espers κ.child = (esperMakeReady s.kernel κ.child).espers κ.child)
    (hespers : ∀ x, x ≠ κ.child → x ≠ κ.parent → k.espers x = s.kernel.espers x) :
    Inv { s.finish c κ with kernel := k } := by
  obtain ⟨hstage, hparent⟩ := h.stage c κ hκ
  refine h.build hκ rfl hrunning rfl rfl
    (fun x hx hne => ⟨hespers x hne (h.running_ne hparent hx), rfl⟩)
    (fun hdead => ?_) (fun κ' hκ' => by cases hκ') (fun x p hp => ?_) fun b hb hkilled => ?_
  · have hwait : (s.kernel.espers κ.child).state ≠ .waiting := fun hw => by
      cases (not_dead_of_state hw (by simp)).symm.trans hdead
    grind [esperMakeReady]
  · simp only [CloneSystem.finish, update_apply] at hp
    by_cases hx : x = κ.child ∧ (s.kernel.espers κ.child).dead = false
    swap
    · grind
    obtain ⟨rfl, halive⟩ := hx
    simp only [halive] at hp
    cases hp
    have hh : Hidden s κ := hstage.resolve_right fun hk => by cases hk.1.symm.trans halive
    have hready : k.espers κ.child = (s.kernel.espers κ.child).become .ready := by
      rw [hchild, esperMakeReady, if_pos hh.waits, set_self]
    refine Or.inr ⟨rfl, ?_⟩
    constructor <;> dsimp only <;> rw [hready]
    · exact ⟨Or.inr rfl, hh.calm.pipe, hh.calm.ipc, hh.calm.futex, hh.calm.sleep, hh.calm.suspend,
        hh.calm.tracer⟩
    · rfl
    · simp only [CloneSystem.finish, hh.estate]
      exact inherited_spared hh.spared κ.made.2
  · refine (List.mem_cons.1 hb).symm.imp_right ?_
    rintro rfl
    rcases hstage with hh | ⟨hd, ⟨-, -, hperm⟩ | ⟨⟨-, -, mm, -, -, hmm⟩, -⟩⟩
    · cases hh.calm.alive.symm.trans hkilled
    · exact hperm
    · cases (hgone hd).symm.trans hmm

theorem Inv.handoff (waits : Esper) (now : Nat) (hdone : κ.done = kAssignments)
    (hgone : (s.kernel.espers κ.child).dead = true → (s.kernel.espers κ.child).mm = none) :
    Inv (s.stepClone c κ (.handoff waits now)).settle := by
  have hparent := (h.stage c κ hκ).2
  have hne : κ.child ≠ κ.parent := h.running_ne hparent (Or.inl ⟨c, κ, hκ, rfl⟩)
  generalize hk : s.kernel.set κ.parent { waits with state := (s.kernel.espers κ.parent).state } = k
  have hk_running : k.running = s.kernel.running := hk ▸ rfl
  have hk_espers : ∀ x, x ≠ κ.parent → k.espers x = s.kernel.espers x := by
    intro x hx
    rw [← hk, set_of_ne hx]
  -- first the child is made ready, as by `esper_make_ready`, and then the parent waits
  obtain ⟨k₁, hk₁⟩ : ∃ k₁, esperMakeReady k κ.child = k₁ := ⟨_, rfl⟩
  have hready := esperMakeReady_spec k κ.child
  rw [hk₁] at hready
  have h₁ : Inv { s.finish c κ with kernel := k₁ } := by
    refine h.finish hκ hgone (hready.1.trans hk_running) ?_ fun x hx hx' => ?_
    · rw [← hk₁, esperMakeReady, esperMakeReady, hk_espers _ hne]
      split
      · rw [set_self, set_self]
      · exact hk_espers _ hne
    · rw [hready.2 x hx, hk_espers x hx']
  generalize hs₁ : ({ s.finish c κ with kernel := k₁ } : CloneSystem) = s₁ at h₁
  have hkernel : s₁.kernel = k₁ := hs₁ ▸ rfl
  have hrun₁ : s₁.kernel.running c = some κ.parent := by rw [hkernel, hready.1, hk_running, hparent]
  have hclones : s₁.clones c = none := hs₁ ▸ update_self ..
  have hother : ∀ x, s₁.NotRun x → x ≠ κ.parent := fun x hx => h₁.running_ne hrun₁ hx
  obtain ⟨k₂, hk₂⟩ :
      ∃ k₂, (if (k₁.espers κ.parent).state = .running then park k₁ c κ.parent else k₁) = k₂ :=
        ⟨_, rfl⟩
  have hpark : Frees False s₁.kernel k₂ c ∧ ∀ x, x ≠ κ.parent → k₂.espers x = k₁.espers x := by
    rw [← hk₂, hkernel]
    split
    · refine ⟨park_frees fun hx => absurd hx id, fun x hx => ?_⟩
      rw [park, clearRunningSlot_espers, set_of_ne hx]
    · exact ⟨.refl k₁ c, fun _ _ => rfl⟩
  have hstays : ∀ x, s₁.NotRun x → Stays (s₁.kernel.espers x) (k₂.espers x) := fun x hx =>
    .of_eq (hkernel ▸ hpark.2 x (hother x hx))
  have hsplit : vforkHandoff k c now κ.parent κ.child = pickAndClaim k₂ c now (some κ.parent) := by
    rw [← hk₂, ← hk₁]
    rfl
  have hpick := h₁.pickFrom hclones hpark.1 hstays now (some κ.parent)
  have hothers := (hpark.1.picks (pickAndClaim_picks k₂ c now (some κ.parent))).others
  have hleaves := fun x hx => (hstays x hx).pick c now (some κ.parent)
  rw [stepClone, if_pos hdone]
  dsimp only
  rw [hk, hsplit]
  generalize pickAndClaim k₂ c now (some κ.parent) = r at hpick hothers hleaves
  obtain ⟨_ | n, k'⟩ := r
  · -- nobody was found, and the parent goes on
    have hstays' : ∀ x, s₁.NotRun x →
        Stays (s₁.kernel.espers x) ((setRunning k' c κ.parent).espers x) := by
      intro x hx
      have hset : (setRunning k' c κ.parent).espers x = k'.espers x :=
        (set_espers _ _ _ _).trans (if_neg (hother x hx))
      rw [hset]
      exact (hleaves x hx).stays (by simp)
    have hsection : Inv ({ s₁ with kernel := setRunning k' c κ.parent } : CloneSystem).settle := by
      refine h₁.section (fun d => ?_) (fun _ _ => rfl) hstays'
        (fun x hx hdue => hdue.stays (hstays' x hx) fun _ _ hu _ => hu) fun _ _ hu => Or.inl hu
      have hrun := claim_running k' c d κ.parent
      split at hrun
      next hd =>
        refine Or.inr ⟨hd ▸ hclones, fun x hx hx' => hother x hx ?_⟩
        exact Option.some.inj (hx'.symm.trans hrun)
      next hd => exact Or.inl (hrun.trans (hothers d hd))
    rw [← hs₁] at hsection
    exact hsection
  · rw [← hs₁] at hpick
    exact hpick

theorem Inv.stepClone {a : Action} (hgentle : GentleClone s κ a) :
    Inv (s.stepClone c κ a).settle := by
  cases a with
  | assign =>
    rw [CloneSystem.stepClone]
    split
    next hlt => exact (h.assignNext hκ hlt).settle
    · exact h.settle
  | abandon =>
    rw [CloneSystem.stepClone]
    split
    · exact (h.abandon hκ).settle
    · exact h.settle
  | publish =>
    rw [CloneSystem.stepClone]
    split
    next hdone =>
      obtain ⟨hrunning, hespers⟩ := esperMakeReady_spec s.kernel κ.child
      exact (h.finish hκ hgentle hrunning rfl fun x hx _ => hespers x hx).settle
    · exact h.settle
  | handoff waits now =>
    by_cases hdone : κ.done = kAssignments
    · exact h.handoff hκ waits now hdone hgentle
    · rw [CloneSystem.stepClone, if_neg hdone]
      exact h.settle
  | _ => exact h.settle

end

section
variable (h : Inv s)
include h

theorem Inv.begin (hi : s.kernel.running c = some i) {n : Slot}
    (hn : esperCreate s.kernel = (some n, k)) (hhalf : ¬ s.HalfBuilt n)
    (hnone : ∀ d, ∀ u ∈ s.duty d, u.slot ≠ n) (vm : Bool) (mm : Option Nat) (ctx : Ctx) :
    Inv (s.begin c i n k vm mm ctx) := by
  rw [esperCreate] at hn
  split at hn
  · cases hn
  next j hj =>
    simp only [Prod.mk.injEq, Option.some.injEq] at hn
    obtain ⟨rfl, rfl⟩ := hn
    obtain ⟨-, huse⟩ := createSlot_spec hj
    simp only [slotInUse, decide_eq_false_iff_not, not_exists, not_or] at huse
    refine h.work (n := j) (fun _ d => (huse d).1) rfl rfl
      (fun x _ hx => by simp [CloneSystem.begin, hx]) (fun _ _ hu _ => hu)
      (fun d u hu => ⟨hu, fun hslot => absurd hslot (hnone d u hu)⟩) (fun d κ hκ => ?_)
      (fun x p hp => ?_) fun _ hb _ => Or.inl hb
    · simp only [CloneSystem.begin, update_apply] at hκ
      split at hκ
      next hd =>
        cases hκ
        refine Or.inr ⟨rfl, hd ▸ hi, Or.inl ?_, fun d' κ' hκ' hchild => ?_⟩
        · constructor <;> simp only [CloneSystem.begin, Kernel.set, update_self]
          · exact ⟨Or.inl rfl, rfl, rfl, rfl, rfl, rfl, rfl⟩
          · exact .refl _
          · simp [takenRefs]
          · simp
        · simp only [CloneSystem.begin, update_apply] at hκ'
          grind
      · grind
    · simp only [CloneSystem.begin, update_apply] at hp
      grind

/-! ### Releasing -/

/-- Somebody is released: if it is a child, then one that was killed before it could run, and this
gives back all that was taken for it. -/
theorem Inv.releaseOf {image : Bool}
    (hchild : s.NotRun t → image = true ∧ (s.kernel.espers t).dead = true ∧
      (s.kernel.espers t).mm ≠ none ∧ (∀ n < kMaxFds, copiedBare ((s.estate t).fds n) = false) ∧
      ∀ d κ, s.clones d = some κ → κ.child = t → κ.done = kAssignments)
    (hless : ∀ d u, u ∈ duty d → u ∈ s.duty d)
    (hmore : ∀ d u, u ∈ s.duty d → u.slot ≠ t → u ∈ duty d) :
    Inv { s.releaseOf t image with duty := duty } := by
  generalize hs' : ({ s.releaseOf t image with duty := duty } : CloneSystem) = s'
  have hespers : ∀ x, s'.kernel.espers x = if x = t ∧ image = true then
      { s.kernel.espers t with mm := none } else s.kernel.espers x := by
    intro x
    simp only [← hs', CloneSystem.releaseOf]
    grind [set_espers]
  have hdead : (s'.kernel.espers t).dead = (s.kernel.espers t).dead := by
    rw [hespers]
    split <;> rfl
  have hrunning : s'.kernel.running = s.kernel.running := by
    simp only [← hs', CloneSystem.releaseOf]
    split <;> rfl
  have hpublished : s'.published = s.published := hs' ▸ rfl
  have hclones : ∀ d κ', s'.clones d = some κ' → ∃ κ, s.clones d = some κ ∧ κ'.child = κ.child ∧
    κ' =
      if κ.child = t then
        { κ with dropped := κ.dropped ++ stripRefs (s.kernel.espers t) (s.estate t) image }
      else κ := by
    intro d κ' hκ'
    rw [← hs'] at hκ'
    obtain ⟨κ, hκ, rfl⟩ := Option.map_eq_some_iff.1 hκ'
    grind
  have hnotRun : s'.NotRun t → s.NotRun t := by
    grind [NotRun, Option.mem_def]
  refine h.work (n := t) (fun hx => h.idle t (hnotRun hx)) hrunning (hs' ▸ rfl)
    (fun x _ hx => ⟨by simp [hespers, hx], hs' ▸ update_of_ne hx ..⟩) (hs' ▸ hmore)
    (fun d u hu => ?_) (fun d κ' hκ' => ?_)
    (fun x p hp => ?_) fun b hb _ => Or.inl (by rwa [← hs'] at hb)
  · have hu' : u ∈ s.duty d := hless d u (by rwa [← hs'] at hu)
    have hmine := h.duty d u hu'
    grind
  · obtain ⟨κ, hκ, -, rfl⟩ := hclones d κ' hκ'
    by_cases ht : κ.child = t
    · subst ht
      obtain ⟨rfl, hd, hspace, hplain, hall⟩ := hchild (Or.inl ⟨d, κ, hκ, rfl⟩)
      obtain ⟨hstage, hparent⟩ := h.stage d κ hκ
      rw [if_pos rfl]
      refine Or.inr ⟨rfl, hparent, ?_, fun d' κ₁ hκ₁ h₁ => ?_⟩
      · -- nothing had been dropped before, for the child has its address space
        rcases hstage with hh | ⟨-, ⟨hnone, -⟩ | ⟨-, -, hdropped, htaken⟩⟩
        · cases hh.calm.alive.symm.trans hd
        · exact absurd hnone hspace
        · refine Or.inr ⟨hdead.trans hd, Or.inl ⟨by simp [hespers], hall d κ hκ rfl, ?_⟩⟩
          rw [hdropped, List.nil_append, htaken, hall d κ hκ rfl]
          exact stripRefs_perm hplain
      · obtain ⟨κ₀, hκ₀, hsame, -⟩ := hclones d' κ₁ hκ₁
        exact h.apart d' d κ₀ κ hκ₀ hκ (hsame.symm.trans h₁)
    · rw [if_neg ht]
      exact Or.inl ⟨hκ, ht⟩
  · have hfresh := fun hp => (h.fresh x p hp).calm.alive
    grind [NotRun, Option.mem_def]

theorem Inv.release (hgentle : GentleOther s c .release) :
    Inv (s.stepOther c .release).settle := by
  rw [stepOther]
  split
  next u rest hduty =>
    have hu : u ∈ s.duty c := by
      rw [hduty]
      exact mem_cons_self
    have hduties : ∀ d v, v ∈ s.duty d ↔ v ∈ update s.duty c rest d ∨ (d = c ∧ v = u) := by
      intro d v
      rw [update_apply]
      grind
    -- what is asked of the release of a child that was killed
    have hchild : s.NotRun u.slot → (s.kernel.espers u.slot).dead = true ∧ ∃ mm fatal,
        u.image = some (mm, fatal) ∧ ((s.kernel.espers u.slot).mm = some mm →
          (fatal = true → (s.kernel.espers u.slot).state = .exited) ∧
          (∀ n < kMaxFds, copiedBare ((s.estate u.slot).fds n) = false) ∧
          ∀ d κ, s.clones d = some κ → κ.child = u.slot → κ.done = kAssignments) := by
      intro hx
      obtain ⟨hdead, himage⟩ := h.duty c u hu hx
      obtain ⟨⟨mm, fatal⟩, himage⟩ := Option.isSome_iff_exists.1 himage
      refine ⟨hdead, mm, fatal, himage, fun hmm => hgentle u ?_ _ himage hmm ?_⟩
      · rw [hduty]
        rfl
      · refine hx.resolve_right fun ⟨p, hp⟩ => ?_
        cases (h.fresh _ p hp).calm.alive.symm.trans hdead
    split
    next hdue =>
      refine (h.releaseOf (fun hx => ?_) (fun d v hv => ?_) fun d v hv hne => ?_).settle
      · obtain ⟨hdead, mm, fatal, himage, hasked⟩ := hchild hx
        simp only [isDue, himage, decide_eq_true_eq] at hdue
        grind
      all_goals grind
    next hnot =>
      refine h.section (fun _ => Or.inl rfl) (fun _ _ => rfl) (fun _ _ => .of_eq rfl)
        (fun x hx => ?_)
        fun d v hv => Or.inl ((hduties d v).2 (Or.inl hv))
      -- the entry that was passed over is not the one by which a child is due
      rintro ⟨hdead, d, mm', fatal', hv, hmm'⟩
      refine ⟨hdead, d, mm', fatal', ((hduties d _).1 hv).resolve_right ?_, hmm'⟩
      rintro ⟨-, rfl⟩
      obtain ⟨-, mm, fatal, himage, hasked⟩ := hchild hx
      cases himage
      refine hnot ?_
      simp only [isDue, decide_eq_true_eq]
      exact ⟨hmm', (hasked hmm').1⟩
  · exact h.settle

end

/-! ## Gentle steps -/

section
variable (h : Inv s)
include h

theorem Inv.kill (hx : s.NotRun x) (hgentle : GentleOther s c (.kill t sig)) :
    Stays (s.kernel.espers x) ((fortis931Kill s.kernel t sig).2.espers x) := by
  refine .of_ends (fortis931Kill_ends s.kernel t sig) fun hcalm => ?_
  rw [GentleOther] at hgentle
  have hsafe := h.ready_or hx fun hhalf => hgentle.of hhalf hcalm.alive
  by_cases htx : t = x
  · subst htx
    have halive := hcalm.alive
    refine (hcalm.kill_self sig).imp_right fun hd => ⟨?_, hd.2⟩
    grind
  · refine hcalm.kill_other sig htx ?_
    grind [Shields]

theorem Inv.endGroup (hc : s.clones c = none) {mm now : Nat} (hi : s.kernel.running c = some i)
    (hmm : (s.kernel.espers i).mm = some mm) (hgentle : GentleOther s c (.fault now)) (code : Int)
    (fatal : Bool) : Inv (s.endGroup c i mm now code fatal).settle := by
  rw [CloneSystem.endGroup, groupExitAndPick]
  have hfrees := endMembers_frees (A := False) s.kernel c (some mm) code
  have hgone := fun x (hx : (s.kernel.espers x).mm = some mm) => endMembers_dead c code hx
  have hstays : ∀ x, s.NotRun x →
      ¬ ((s.kernel.espers x).dead = false ∧ (s.kernel.espers x).mm = some mm ∧ s.HalfBuilt x) →
      Stays (s.kernel.espers x) (((finRange kMaxEspers).foldl
        (fun k j => endMember k c (some mm) code j) s.kernel).espers x) := by
    intro x hx hin
    refine endMembers_stays (fun hcalm => h.ready_or hx fun hhalf j hj hlive => ?_) c code
    have halive := hcalm.alive
    have hsafe := (hgentle i hi mm hmm).of hhalf halive
    grind
  generalize (finRange kMaxEspers).foldl _ s.kernel = k₁ at hfrees hgone hstays
  have hpicks := hfrees.picks (pickAndClaim_picks k₁ c now (some i))
  have hleaves := fun x hx hin => (hstays x hx hin).pick c now (some i)
  have hmember := fun x => (Stays.of_eq (e := k₁.espers x) rfl).pick c now (some i)
  generalize pickAndClaim k₁ c now (some i) = r at hpicks hleaves hmember
  refine h.resume hc hpicks (fun x hx => ?_) (fun _ _ hu => mem_noteEnded.2 (Or.inl hu))
    fun d u hu => ?_
  · by_cases hin :
      (s.kernel.espers x).dead = false ∧ (s.kernel.espers x).mm = some mm ∧ s.HalfBuilt x
    · -- the child has gone with its group, and its CPU is to release it
      obtain ⟨halive, hmm, -⟩ := hin
      obtain ⟨hdead, hmm₁⟩ := hgone x hmm
      have hother : r.1 ≠ some x := fun hr => by
        cases ((hmember x).claimed hr).1.symm.trans hdead
      obtain ⟨hdead', hmm'⟩ := ((hmember x).stays hother).rests hdead
      refine Or.inr ⟨⟨hdead', c, mm, fatal, ?_, hmm'.trans hmm₁⟩, (hmm'.trans hmm₁).trans hmm.symm⟩
      exact mem_noteEnded.2 (Or.inr ⟨rfl, halive, hdead', rfl⟩)
    · exact Or.inl (hleaves x hx hin)
  · refine (mem_noteEnded.1 hu).imp_right fun ⟨_, _, hdead, himage⟩ => ⟨hdead, ?_⟩
    rw [himage]
    rfl

theorem Inv.reap {child : Slot} (hi : s.kernel.running c = some i)
    (hchild : (s.kernel.espers child).state = .exited ∨ (s.kernel.espers child).state = .faulted) :
    Inv ({ s with kernel := reap s.kernel i child } : CloneSystem).settle := by
  have hdead : (s.kernel.espers child).dead = true := by
    rcases hchild with hs | hs <;> simp [Esper.dead, hs]
  refine h.quiet (reap_running s.kernel i child) (fun x hx => ?_) fun _ _ => rfl
  have hxi := h.running_ne hi hx
  have hespers : (Espers.reap s.kernel i child).espers x =
      if x = child then (s.kernel.espers x).become .free else s.kernel.espers x := by
    rw [Espers.reap]
    split
    · grind [set_espers]
    · grind [set_espers]
  rw [hespers]
  refine .ite ?_
  rintro rfl
  refine ⟨fun hcalm => ?_, hdead.symm, rfl⟩
  cases hcalm.alive.symm.trans hdead

theorem Inv.stepTrap (hc : s.clones c = none) (hi : s.kernel.running c = some i) {a : Action}
    (hgentle : GentleOther s c a) : Inv (s.stepTrap c i a).settle := by
  have hne : ∀ x, s.NotRun x → x ≠ i := fun x hx => h.running_ne hi hx
  have hset : ∀ e x, s.NotRun x → (s.kernel.set i e).espers x = s.kernel.espers x :=
    fun e x hx => by
    rw [set_of_ne (hne x hx)]
  cases a with
  | clone vm mm ctx =>
    rw [CloneSystem.stepTrap]
    split
    next n k hn =>
      obtain ⟨hhalf, hnone⟩ := hgentle n (congrArg Prod.fst hn)
      exact (h.begin hi hn hhalf hnone vm mm ctx).settle
    · exact h.settle
  | preempt now =>
    exact h.pick hc (preemptAndPick_picks s.kernel c now i).1 fun x hx =>
      preemptAndPick_leaves s.kernel (hne x hx).symm c now
  | park waits now =>
    have hfrees : Frees False s.kernel (park (s.kernel.set i waits) c i) c :=
      (Frees.set fun hx => absurd hx id).trans (park_frees fun hx => absurd hx id)
    refine h.pickFrom hc hfrees (fun x hx => .of_eq ?_) now (some i)
    rw [park, clearRunningSlot_espers, set_of_ne (hne x hx), hset waits x hx]
  | exit now code =>
    exact h.pickFrom hc (endWith_frees s.kernel c i code) (fun x hx => endWith_stays (hne x hx).symm
      (fun hcalm => h.ready_or hx fun hhalf => (hgentle i hi).of hhalf hcalm.alive) c code) now
        (some i)
  | closeMember t =>
    rw [CloneSystem.stepTrap]
    split
    next ht =>
      have halive : (s.kernel.espers t).dead = false := Bool.eq_false_iff.2 ht.2.2
      have hrelease : Inv { s.releaseOf t false with duty := s.duty } := by
        refine h.releaseOf (fun hx => ?_) (fun _ _ hu => hu) fun _ _ hu _ => hu
        cases (hgentle hx).symm.trans halive
      exact hrelease.settle
    · exact h.settle
  | exitGroup now code =>
    rw [CloneSystem.stepTrap]
    split
    next mm hmm => exact h.endGroup hc hi hmm hgentle code false
    · exact h.settle
  | fault now =>
    rw [CloneSystem.stepTrap]
    split
    next mm hmm => exact h.endGroup hc hi hmm hgentle (128 + 11) true
    · have hfrees : Frees False s.kernel (detachTracees (markFaulted s.kernel c i) i) c :=
        (markFaulted_frees s.kernel c i).trans (.of_ends (detachTracees_steady _ i).ends)
      refine h.pickFrom hc hfrees (fun x hx => ?_) now (some i)
      refine Stays.trans (.of_eq ?_) (detachTracees_stays _ x i)
      rw [markFaulted, clearRunningSlot_espers, hset _ x hx]
  | own e t =>
    exact h.quiet rfl (fun x hx => .of_eq (hset _ x hx)) fun x hx => update_of_ne (hne x hx) ..
  | reap child =>
    rw [CloneSystem.stepTrap]
    split
    next hchild => exact h.reap hi hchild.2
    · exact h.settle
  | _ => exact h.settle

theorem Inv.stepOther (hc : s.clones c = none) {a : Action} (hgentle : GentleOther s c a) :
    Inv (s.stepOther c a).settle := by
  cases a with
  | pick now after => exact h.pickFrom hc (.refl s.kernel c) (fun _ _ => .of_eq rfl) now after
  | ipcWake kind id =>
    rw [CloneSystem.stepOther]
    split
    · exact h.settle
    next hkind => exact h.quiet rfl (fun x _ => ipcWake_stays s.kernel x hkind id) fun _ _ => rfl
  | wakePipe p writers =>
    exact h.quiet rfl (fun x _ => wakePipe_stays s.kernel x p writers) fun _ _ => rfl
  | futexWake phys count =>
    exact h.quiet (futexWake_steady s.kernel phys count).running
      (fun x _ => futexWake_stays s.kernel x phys count) fun _ _ => rfl
  | kill t sig =>
    exact h.noteEnded (fortis931Kill_ends s.kernel t sig).running (fun x hx => h.kill hx hgentle) c
  | killPgrp pgrp sig =>
    refine h.noteEnded (fortis931KillPgrp_ends s.kernel pgrp sig).running
      (fun x hx => fortis931KillPgrp_stays sig fun hcalm => ?_) c
    exact h.ready_or hx fun hhalf hpgrp => (hgentle hpgrp).of hhalf hcalm.alive
  | release => exact h.release hgentle
  | _ =>
    dsimp only [CloneSystem.stepOther]
    split
    next i hi => exact h.stepTrap hc hi hgentle
    · exact h.settle

/-- What one step keeps. -/
theorem Inv.step {ce : Cpu × Action} (hgentle : Gentle s ce) : Inv (s.step ce) := by
  rw [Gentle] at hgentle
  rw [CloneSystem.step]
  split at hgentle
  next κ hκ => exact h.stepClone hκ hgentle
  next hc => exact h.stepOther hc hgentle

end

/-! ## Runs -/

/-- No child is being built, and all that there are have run. -/
structure Start (s : CloneSystem) : Prop where
  clones : ∀ c, s.clones c = none
  published : ∀ x, s.published x = none
  resumed : s.resumed = []
  finished : s.finished = []

theorem Start.inv (h : Start s) : Inv s := by
  have hnone : ∀ x, ¬ s.NotRun x := by
    rintro x (⟨c, κ, hκ, -⟩ | ⟨p, hp⟩)
    · cases (h.clones c).symm.trans hκ
    · cases (h.published x).symm.trans hp
  exact
    { stage := fun c κ hκ => absurd (Or.inl ⟨c, κ, hκ, rfl⟩) (hnone κ.child)
      fresh := fun x p hp => absurd (Or.inr ⟨p, hp⟩) (hnone x)
      apart := fun c _ κ _ hκ _ _ => absurd (Or.inl ⟨c, κ, hκ, rfl⟩) (hnone κ.child)
      idle := fun x hx => absurd hx (hnone x)
      duty := fun _ u _ hx => absurd hx (hnone u.slot)
      finished := by simp [h.finished]
      resumed := by simp [h.resumed] }

end IndexOS.Espers
