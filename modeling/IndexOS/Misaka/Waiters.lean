import IndexOS.Misaka.Locks

/-!
# Nobody who waits for a lock is lost

The rings hold exactly the Sisters that are blocked, in the order in which they blocked, as long as
each of them has found a place there.  The invariant says so, and what follows is that the mutex has
at most one holder and that permits are neither lost nor made up.

* `World.Inv` — the invariant;
* `Ledger.resume_eq` — the ledger after a step in which the first of the queues resume;
* `World.Inv.step` — every step that has room keeps the invariant and resumes in order;
* `World.Inv.hasRoom` — a step without room loses somebody, or a permit;
* `fair_iff` — the main theorem.
-/

set_option autoImplicit false

namespace IndexOS.Misaka

open List
open Traces (Always EachStep always_iff_eachStep)

/-! ## Who is blocked -/

namespace Network

variable {m m' : Network} {cpu : Cpu} {i : Id}

/-- The running Sister is not blocked. -/
theorem Inv.current_ne (h : m.Inv) (hon : m.online cpu = true) :
    (m.sisters (m.current cpu)).state ≠ .blocked := by
  have hrun := (h.current cpu hon).1
  rw [mine] at hrun
  rw [hrun]
  decide

theorem unblockLocked_state (h : (m.sisters i).state = .blocked) (j : Id) :
    ((m.unblockLocked i).sisters j).state = if j = i then .ready else (m.sisters j).state := by
  rw [unblockLocked, if_pos h, become, set_sisters]
  split <;> rfl

theorem level_state (m : Network) (i : Id) (level : Nat) (j : Id) :
    ((m.set i { m.sisters i with level := level }).sisters j).state = (m.sisters j).state := by
  rw [set_sisters]
  split
  next h => rw [h]
  · rfl

end Network

open Network

namespace Sync

variable {s : Sync} {cpu : Cpu}

theorem calls_iff : s.calls cpu = true ↔ s.net.online cpu = true ∧ s.net.works cpu = true := by
  simp [calls]

theorem stuck_iff {i : Id} : s.stuck i = true ↔ (s.net.sisters i).state = .blocked := by
  simp [stuck]

theorem not_stuck_iff {i : Id} : s.stuck i = false ↔ (s.net.sisters i).state ≠ .blocked := by
  simp [stuck]

theorem stuck_mono {s' : Sync}
    (h : ∀ i, (s.net.sisters i).state = .blocked → (s'.net.sisters i).state = .blocked) (i : Id)
    (hi : s.stuck i = true) : s'.stuck i = true := stuck_iff.2 (h i (stuck_iff.1 hi))

/-- Lending a level changes nothing else. -/
theorem lendLevel_spec (h : s.net.Inv) (cpu : Cpu) :
    (s.lendLevel cpu).Inv ∧ (s.lendLevel cpu).current = s.net.current ∧
      (s.lendLevel cpu).online = s.net.online ∧ (s.lendLevel cpu).works cpu = s.net.works cpu ∧
      ∀ j, ((s.lendLevel cpu).sisters j).state = (s.net.sisters j).state := by
  rw [lendLevel]
  split
  next o _ =>
    rw [levelUpper]
    split
    · refine ⟨h.level o _, rfl, rfl, ?_, level_state _ o _⟩
      rw [works, works, mine, mine, set_current, set_sisters]
      split
      next heq => rw [heq]
      · rfl
    · exact ⟨h, rfl, rfl, rfl, fun _ => rfl⟩
  · exact ⟨h, rfl, rfl, rfl, fun _ => rfl⟩

end Sync

/-! ## The ledger after a step -/

namespace Ledger

variable {l : Ledger} {after : Sync} {a b a' b' : List Id}

theorem filter_split {p : Id → Bool} (ha : ∀ i ∈ a, p i = false) (hb : ∀ i ∈ b, p i = true) :
    ((a ++ b).filter fun i => ¬ p i) = a ∧ ((a ++ b).filter fun i => p i) = b := by
  constructor
  · rw [filter_append, filter_eq_self.2 (fun i hi => by simp [ha i hi]),
      filter_eq_nil_iff.2 (fun i hi => by simp [hb i hi]), append_nil]
  · rw [filter_append, filter_eq_nil_iff.2 (fun i hi => by simp [ha i hi]),
      filter_eq_self.2 (fun i hi => hb i hi), nil_append]

/-- The first of the queues resume, and the others stay blocked. -/
structure Resumes (l : Ledger) (after : Sync) (a b a' b' : List Id) : Prop where
  lock : l.lockOrder = a ++ b
  sem : l.semOrder = a' ++ b'
  up : ∀ i ∈ a ++ a', after.stuck i = false
  stay : ∀ i ∈ b ++ b', after.stuck i = true

variable (h : Resumes l after a b a' b')
include h

theorem Resumes.filters :
    ((l.lockOrder.filter fun i => ¬ after.stuck i) = a ∧
      (l.lockOrder.filter fun i => after.stuck i) = b) ∧
      (l.semOrder.filter fun i => ¬ after.stuck i) = a' ∧
      (l.semOrder.filter fun i => after.stuck i) = b' := by
  rw [h.lock, h.sem]
  exact ⟨filter_split (fun i hi => h.up i (mem_append_left _ hi)) fun i hi => h.stay i
    (mem_append_left _ hi),
    filter_split (fun i hi => h.up i (mem_append_right _ hi)) fun i hi => h.stay i
      (mem_append_right _ hi)⟩

theorem Resumes.resume_eq :
    l.resume after =
      { l with
        inside := a ++ l.inside, lockOrder := b, semOrder := b', completed :=
          l.completed + a'.length } := by
  rw [resume, h.filters.1.1, h.filters.1.2, h.filters.2.1, h.filters.2.2]

end Ledger

variable {s : Sync} {cpu : Cpu}

namespace World

variable {w : World} {e : Cpu × Op} {p : Int} {a b a' b' : List Id}

theorem inOrder_of_resumes (h : w.ledger.Resumes (w.sync.step e) a b a' b') : w.InOrder e := by
  refine ⟨?_, ?_⟩
  · rw [h.filters.1.1, h.filters.1.2, h.lock]
  · rw [h.filters.2.1, h.filters.2.2, h.sem]

/-! ## Two queues -/

theorem enqueue_spec {n : Nat} {q : RingBuffer Id n} (h : q.Tidy) (hroom : q.avail < n) (i : Id) :
    (enqueue q i).Tidy ∧ (enqueue q i).contents = q.contents ++ [i] := by
  rw [enqueue, if_neg (by omega)]
  exact ⟨h.put hroom i, RingBuffer.contents_put h hroom i⟩

/-- Two rings hold the Sisters that are blocked in two calls, each in order. -/
structure Queues {n n' : Nat} (stuck : Id → Bool) (q : RingBuffer Id n) (l : List Id)
    (q' : RingBuffer Id n') (l' : List Id) : Prop where
  tidy : q.Tidy
  tidy' : q'.Tidy
  contents : q.contents = l
  contents' : q'.contents = l'
  nodup : (l ++ l').Nodup
  stuck : ∀ i ∈ l ++ l', stuck i = true

namespace Queues

variable {n n' : Nat} {stuck stuck' : Id → Bool} {q : RingBuffer Id n} {q' : RingBuffer Id n'}
  {l l' : List Id}
  {i : Id}

variable (h : Queues stuck q l q' l')
include h

theorem symm : Queues stuck q' l' q l :=
  ⟨h.tidy', h.tidy, h.contents', h.contents, nodup_append_comm.1 h.nodup,
    fun i hi => h.stuck i (mem_append.2 (mem_append.1 hi).symm)⟩

theorem mono (hstay : ∀ i, stuck i = true → stuck' i = true) : Queues stuck' q l q' l' :=
  ⟨h.tidy, h.tidy', h.contents, h.contents', h.nodup, fun i hi => hstay i (h.stuck i hi)⟩

/-- A Sister blocks, and there is room for it. -/
theorem join (hroom : q.avail < n) (hout : i ∉ l ++ l')
    (hstay : ∀ i, stuck i = true → stuck' i = true)
    (hi : stuck' i = true) : Queues stuck' (enqueue q i) (l ++ [i]) q' l' := by
  obtain ⟨htidy, hcontents⟩ := enqueue_spec h.tidy hroom i
  refine ⟨htidy, h.tidy', hcontents.trans (by rw [h.contents]), h.contents', ?_, fun j hj => ?_⟩
  · rw [append_assoc]
    exact nodup_middle.2 (nodup_cons.2 ⟨hout, h.nodup⟩)
  · rw [append_assoc, singleton_append, mem_append, mem_cons] at hj
    rcases hj with hj | rfl | hj
    · exact hstay j (h.stuck j (mem_append_left _ hj))
    · exact hi
    · exact hstay j (h.stuck j (mem_append_right _ hj))

theorem first (hne : 0 < q.avail) : l = q.get.1 :: q.get.2.contents ∧ stuck q.get.1 = true := by
  have hl : l = q.get.1 :: q.get.2.contents := h.contents ▸ RingBuffer.contents_get hne h.tidy
  exact ⟨hl, h.stuck _ (mem_append_left _ (hl ▸ mem_cons_self))⟩

/-- The first of the first queue is unblocked, and nobody else. -/
theorem pop (hne : 0 < q.avail) (hstay : ∀ i, i ≠ q.get.1 → stuck i = true → stuck' i = true) :
    Queues stuck' q.get.2 q.get.2.contents q' l' := by
  obtain ⟨hl, -⟩ := h.first hne
  have hnodup := h.nodup
  have hstuck := h.stuck
  rw [hl] at hnodup hstuck
  obtain ⟨hnot, hrest⟩ := nodup_cons.1 hnodup
  refine ⟨h.tidy.get hne, h.tidy', rfl, h.contents', hrest, fun i hi => hstay i ?_ ?_⟩
  · exact fun heq => hnot (heq ▸ hi)
  · exact hstuck i (mem_cons_of_mem _ hi)

theorem nil (hq : ¬ 0 < q.avail) : l = [] := by
  rw [← h.contents]
  exact RingBuffer.contents_eq_nil (by omega)

end Queues

/-! ## The invariant -/

/-- The rings hold those that are blocked, in order; the mutex is held by the one Sister that is
between lock and unlock. -/
structure Inv (p : Int) (w : World) : Prop where
  net : w.sync.net.Inv
  queues : Queues w.sync.stuck w.sync.lock.waiters w.ledger.lockOrder w.sync.sem.waiters
    w.ledger.semOrder
  holder : (w.sync.lock.held = false ∧ w.sync.lock.owner = none ∧ w.ledger.inside = [] ∧
      w.ledger.lockOrder = []) ∨
    ∃ o, w.sync.lock.held = true ∧ w.sync.lock.owner = some o ∧ w.ledger.inside = [o]
  conserved : p + w.ledger.posts = w.sync.sem.permits + w.ledger.completed
  range : -2 ^ 31 ≤ w.sync.sem.permits ∧ w.sync.sem.permits < 2 ^ 31

section
variable (h : Inv p w)
include h

theorem Inv.fair : Fair p w := by
  refine ⟨?_, h.conserved, fun i hi => h.queues.contents ▸ hi, fun i hi => h.queues.contents' ▸ hi⟩
  rcases h.holder with ⟨-, -, hin, -⟩ | ⟨o, -, -, hin⟩
  · rw [hin]
    exact Nat.zero_le 1
  · rw [hin]
    exact Nat.le_refl 1

/-- Nobody resumes. -/
theorem Inv.nobody (hstay : ∀ i, w.sync.stuck i = true → s.stuck i = true) :
    w.ledger.Resumes s [] w.ledger.lockOrder [] w.ledger.semOrder :=
  ⟨rfl, rfl, nofun, fun i hi => hstay i (h.queues.stuck i hi)⟩

/-- What is to be shown of a step. -/
def Kept (p : Int) (w : World) (e : Cpu × Op) : Prop := Inv p (w.step e) ∧ w.InOrder e ∧ w.Serves e

/-- A step in which nobody resumes, and the ledger is written as given. -/
theorem Inv.kept_of_nobody {l : Ledger} (hs : w.sync.step e = s)
    (hstay : ∀ i, w.sync.stuck i = true → s.stuck i = true)
    (hl : (if w.sync.calls e.1 then w.ledger.call s (w.sync.net.current e.1) e.2 else w.ledger) = l)
    (hserves : w.Serves e) (hinv : Inv p ⟨s, l⟩) : Kept p w e := by
  subst hs hl
  have hnobody := h.nobody hstay
  refine ⟨?_, inOrder_of_resumes hnobody, hserves⟩
  rw [step, Ledger.note, hnobody.resume_eq]
  exact hinv

/-- A step that does nothing. -/
theorem Inv.same (hs : w.sync.step e = w.sync)
    (hl : (if w.sync.calls e.1 then w.ledger.call w.sync (w.sync.net.current e.1) e.2
      else w.ledger) = w.ledger) (hserves : w.Serves e) : Kept p w e :=
  h.kept_of_nobody hs (fun _ hi => hi) hl hserves h

/-! ## Every step -/

theorem Inv.sched {ev : Event} (hwhole : ev.whole = true)
    (hslot : w.sync.net.FindsSlot (cpu, ev)) : Kept p w (cpu, .sched ev) := by
  obtain ⟨hnet, hlawful⟩ := h.net.step hslot
  have hs : w.sync.step (cpu, .sched ev) = { w.sync with net := w.sync.net.step (cpu, ev) } := by
    simp only [Sync.step, hwhole, if_true]
  have hstay : ∀ i, w.sync.stuck i = true →
      Sync.stuck { w.sync with net := w.sync.net.step (cpu, ev) } i = true := by
    intro i hi
    rw [Sync.stuck_iff] at hi ⊢
    refine (hlawful.blocked i hi).resolve_right fun hev => ?_
    obtain rfl : ev = .unblock i := hev
    exact absurd hwhole (by simp [Event.whole])
  refine h.kept_of_nobody (l := w.ledger) hs hstay ?_ (fun _ => trivial) ?_
  · split <;> rfl
  · exact ⟨hnet, h.queues.mono hstay, h.holder, h.conserved, h.range⟩

/-- The Sister that the CPU runs is in no queue. -/
theorem Inv.current_not_mem (hon : w.sync.net.online cpu = true) :
    w.sync.net.current cpu ∉ w.ledger.lockOrder ++ w.ledger.semOrder := fun hmem =>
  h.net.current_ne hon (Sync.stuck_iff.1 (h.queues.stuck _ hmem))

end

/-- The caller blocks: it is stuck from now on, and nobody resumes. -/
theorem blocks {m : Network} (hm : m.Inv) (hon : m.online cpu = true) (hw : m.works cpu = true) :
    (m.blockCurrentLocked cpu).Inv ∧
      ((m.blockCurrentLocked cpu).sisters (m.current cpu)).state = .blocked ∧
      ∀ i, (m.sisters i).state = .blocked → ((m.blockCurrentLocked cpu).sisters i).state =
        .blocked := by
  obtain ⟨hnet, hlawful⟩ := hm.blockCurrentLocked hon hw
  refine ⟨hnet, hlawful.rests .blocked rfl hon hw, fun i hi => ?_⟩
  exact (hlawful.blocked i hi).resolve_right (by simp)

/-- Likewise where the caller has lent its level first. -/
theorem lendAndBlock (hm : s.net.Inv) (hon : s.net.online cpu = true)
    (hw : s.net.works cpu = true) : ((s.lendLevel cpu).blockCurrentLocked cpu).Inv ∧
      (((s.lendLevel cpu).blockCurrentLocked cpu).sisters (s.net.current cpu)).state = .blocked ∧
      ∀ i, (s.net.sisters i).state = .blocked →
        (((s.lendLevel cpu).blockCurrentLocked cpu).sisters i).state = .blocked := by
  obtain ⟨hlend, hcur, honline, hworks, hstate⟩ := Sync.lendLevel_spec hm cpu
  obtain ⟨hnet, hself, hothers⟩ := blocks hlend (by rw [honline]; exact hon) (hworks.trans hw)
  exact ⟨hnet, hcur ▸ hself, fun i hi => hothers i ((hstate i).trans hi)⟩

theorem Inv.lock (h : Inv p w) (hcalls : w.sync.calls cpu = true) (hroom : w.HasRoom (cpu, .lock)) :
    Kept p w (cpu, .lock) := by
  obtain ⟨hon, hw⟩ := Sync.calls_iff.1 hcalls
  rcases h.holder with ⟨hheld, -, hin, -⟩ | ⟨o, hheld, howner, hin⟩
  · -- the mutex is free
    have hs : w.sync.step (cpu, .lock) = { w.sync with
        lock := { w.sync.lock with held := true, owner := some (w.sync.net.current cpu) } } := by
      simp only [Sync.step, hcalls, Sync.judgementLock, hheld]
      rfl
    refine h.kept_of_nobody (l := { w.ledger with inside := [w.sync.net.current cpu] }) hs
      (fun _ hi => hi)
      ?_ (fun _ => trivial) ⟨h.net, h.queues, Or.inr ⟨_, rfl, rfl, rfl⟩, h.conserved, h.range⟩
    rw [if_pos hcalls, Ledger.call, if_neg, hin]
    exact fun hstuck => h.net.current_ne hon (Sync.stuck_iff.1 hstuck)
  · -- the caller joins the queue
    have hs : w.sync.step (cpu, .lock) = { w.sync with
        net := (w.sync.lendLevel cpu).blockCurrentLocked cpu
        lock := { w.sync.lock with waiters := enqueue w.sync.lock.waiters (w.sync.net.current cpu) }
          } := by
      simp only [Sync.step, hcalls, if_true, Sync.judgementLock, if_pos hheld]
    obtain ⟨hnet, hself, hothers⟩ := lendAndBlock h.net hon hw
    refine h.kept_of_nobody
      (l := { w.ledger with lockOrder := w.ledger.lockOrder ++ [w.sync.net.current cpu] }) hs
      (Sync.stuck_mono hothers) ?_
      (fun _ => trivial) ⟨hnet, ?_, Or.inr ⟨o, hheld, howner, hin⟩, h.conserved, h.range⟩
    · rw [if_pos hcalls, Ledger.call, if_pos (Sync.stuck_iff.2 hself)]
    · exact h.queues.join (hroom hcalls hheld) (h.current_not_mem hon) (Sync.stuck_mono hothers)
        (Sync.stuck_iff.2 hself)

theorem Inv.wait (h : Inv p w) (hcalls : w.sync.calls cpu = true) (hroom : w.HasRoom (cpu, .wait)) :
    Kept p w (cpu, .wait) := by
  obtain ⟨hon, hw⟩ := Sync.calls_iff.1 hcalls
  have hconserved := h.conserved
  obtain ⟨hlow, hhigh⟩ := h.range
  by_cases hpermit : 0 < w.sync.sem.permits
  · have hs : w.sync.step (cpu, .wait) = { w.sync with
        sem := { w.sync.sem with permits := w.sync.sem.permits - 1 } } := by
      simp only [Sync.step, hcalls, if_true, Sync.imprimaturWait, if_pos hpermit]
    refine h.kept_of_nobody (l := { w.ledger with completed := w.ledger.completed + 1 }) hs
      (fun _ hi => hi) ?_ (fun _ => trivial) ⟨h.net, h.queues, h.holder, ?_, ?_⟩
    · rw [if_pos hcalls, Ledger.call, if_neg]
      exact fun hstuck => h.net.current_ne hon (Sync.stuck_iff.1 hstuck)
    · push_cast
      omega
    · exact ⟨by dsimp only; omega, by dsimp only; omega⟩
  · have hs : w.sync.step (cpu, .wait) = { w.sync with
        net := w.sync.net.blockCurrentLocked cpu
        sem := { w.sync.sem with waiters := enqueue w.sync.sem.waiters (w.sync.net.current cpu) }
          } := by
      simp only [Sync.step, hcalls, if_true, Sync.imprimaturWait, if_neg hpermit]
    obtain ⟨hnet, hself, hothers⟩ := blocks h.net hon hw
    have hout : w.sync.net.current cpu ∉ w.ledger.semOrder ++ w.ledger.lockOrder := fun hmem =>
      h.current_not_mem hon (mem_append.2 (mem_append.1 hmem).symm)
    refine h.kept_of_nobody
      (l := { w.ledger with semOrder := w.ledger.semOrder ++ [w.sync.net.current cpu] }) hs
      (Sync.stuck_mono hothers) ?_
      (fun _ => trivial) ⟨hnet, ?_, h.holder, h.conserved, h.range⟩
    · rw [if_pos hcalls, Ledger.call, if_pos (Sync.stuck_iff.2 hself)]
    · exact (h.queues.symm.join (hroom hcalls (not_lt.1 hpermit)) hout (Sync.stuck_mono hothers)
        (Sync.stuck_iff.2 hself)).symm

/-- Who is stuck after one Sister has been unblocked. -/
theorem stuck_unblocked {m : Network} {x : Id} (hs : s.net = m.unblockLocked x)
    (hx : (m.sisters x).state = .blocked) :
    s.stuck x = false ∧ ∀ i, i ≠ x → (m.sisters i).state = .blocked → s.stuck i = true := by
  have hstate := unblockLocked_state hx
  refine ⟨?_, fun i hne hi => ?_⟩
  · rw [Sync.not_stuck_iff, hs, hstate, if_pos rfl]
    decide
  · rw [Sync.stuck_iff, hs, hstate, if_neg hne]
    exact hi

theorem Inv.unlock (h : Inv p w) (hcalls : w.sync.calls cpu = true) : Kept p w (cpu, .unlock) := by
  obtain ⟨hon, -⟩ := Sync.calls_iff.1 hcalls
  by_cases howner : w.sync.lock.owner = some (w.sync.net.current cpu)
  · -- the caller holds the mutex
    obtain ⟨o, hheld, ho, hin⟩ := h.holder.resolve_left fun hfree => by
      rw [hfree.2.1] at howner
      cases howner
    obtain rfl := Option.some.inj (ho.symm.trans howner)
    have hrestore : (w.sync.net.levelRestore (w.sync.net.current cpu)).Inv := h.net.level _ _
    have hstate : ∀ i, ((w.sync.net.levelRestore (w.sync.net.current cpu)).sisters i).state =
        (w.sync.net.sisters i).state := level_state _ _ _
    by_cases hwaiting : 0 < w.sync.lock.waiters.avail
    · -- the longest waiting Sister gets it
      obtain ⟨horder, hfirst⟩ := h.queues.first hwaiting
      rw [Sync.stuck_iff] at hfirst
      have hs : w.sync.step (cpu, .unlock) = { w.sync with
          net := (w.sync.net.levelRestore (w.sync.net.current cpu)).unblockLocked
            w.sync.lock.waiters.get.1
          lock := { w.sync.lock with
            owner := some w.sync.lock.waiters.get.1, waiters := w.sync.lock.waiters.get.2 } } := by
        simp only [Sync.step, hcalls, if_true, Sync.judgementUnlock, ne_eq, howner, not_true,
          if_false,
          if_pos hwaiting]
      obtain ⟨hup, hstay⟩ := stuck_unblocked (s := w.sync.step (cpu, .unlock)) (by rw [hs])
        ((hstate _).trans hfirst)
      have hpop := h.queues.pop hwaiting fun i hne hi =>
        hstay i hne ((hstate i).trans (Sync.stuck_iff.1 hi))
      have hresumes : w.ledger.Resumes (w.sync.step (cpu, .unlock)) [w.sync.lock.waiters.get.1]
          w.sync.lock.waiters.get.2.contents [] w.ledger.semOrder :=
        ⟨horder, rfl, fun i hi => mem_singleton.1 hi ▸ hup, hpop.stuck⟩
      refine ⟨?_, inOrder_of_resumes hresumes, fun _ _ _ => ⟨_, horder ▸ mem_cons_self, hup⟩⟩
      have hne : w.sync.lock.waiters.get.1 ≠ w.sync.net.current cpu := fun heq =>
        h.net.current_ne hon (heq ▸ hfirst)
      have hinside : ([w.sync.lock.waiters.get.1] ++ w.ledger.inside).erase
          (w.sync.net.current cpu) = [w.sync.lock.waiters.get.1] := by
        rw [hin, singleton_append, erase_cons_tail (by simpa using hne), erase_cons_head]
      rw [step, Ledger.note, if_pos hcalls, hresumes.resume_eq]
      rw [hs] at hpop ⊢
      exact ⟨hrestore.unblockLocked _, hpop, Or.inr ⟨_, hheld, rfl, hinside⟩, h.conserved, h.range⟩
    · -- nobody waits
      have hs : w.sync.step (cpu, .unlock) = { w.sync with
          net := w.sync.net.levelRestore (w.sync.net.current cpu)
          lock := { w.sync.lock with held := false, owner := none } } := by
        simp only [Sync.step, hcalls, if_true, Sync.judgementUnlock, ne_eq, howner, not_true,
          if_false,
          if_neg hwaiting]
      have hothers := fun i (hi : (w.sync.net.sisters i).state = .blocked) => (hstate i).trans hi
      refine h.kept_of_nobody (l := { w.ledger with inside := [] }) hs (Sync.stuck_mono hothers) ?_
        (fun _ _ hsome => absurd (h.queues.nil hwaiting) hsome)
        ⟨hrestore, h.queues.mono (Sync.stuck_mono hothers), Or.inl
          ⟨rfl, rfl, rfl, h.queues.nil hwaiting⟩, h.conserved, h.range⟩
      rw [if_pos hcalls, Ledger.call, hin, erase_cons_head]
  · -- nothing is done for who does not hold it
    have hs : w.sync.step (cpu, .unlock) = w.sync := by
      simp only [Sync.step, hcalls, if_true]
      exact if_pos howner
    have hout : w.sync.net.current cpu ∉ w.ledger.inside := by
      rcases h.holder with ⟨-, -, hin, -⟩ | ⟨o, -, ho, hin⟩
      · rw [hin]
        simp
      · rw [hin, mem_singleton]
        rintro rfl
        exact howner ho
    refine h.same hs ?_ fun _ hin => absurd hin hout
    rw [if_pos hcalls]
    exact congrArg (fun inside => { w.ledger with inside := inside }) (erase_of_not_mem hout)

theorem wrap32_eq {n : Int} (h : -2 ^ 31 ≤ n) (h' : n < 2 ^ 31) : wrap32 n = n := by
  rw [wrap32]
  omega

theorem Inv.post (h : Inv p w) (hcalls : w.sync.calls cpu = true) (hroom : w.HasRoom (cpu, .post)) :
    Kept p w (cpu, .post) := by
  have hconserved := h.conserved
  obtain ⟨hlow, hhigh⟩ := h.range
  by_cases hwaiting : 0 < w.sync.sem.waiters.avail
  · -- the longest waiting Sister gets the permit
    obtain ⟨horder, hfirst⟩ := h.queues.symm.first hwaiting
    rw [Sync.stuck_iff] at hfirst
    have hs : w.sync.step (cpu, .post) = { w.sync with
        net := w.sync.net.unblockLocked w.sync.sem.waiters.get.1
        sem := { w.sync.sem with waiters := w.sync.sem.waiters.get.2 } } := by
      simp only [Sync.step, hcalls, if_true, Sync.imprimaturPost, if_pos hwaiting]
    obtain ⟨hup, hstay⟩ := stuck_unblocked (s := w.sync.step (cpu, .post)) (by rw [hs]) hfirst
    have hpop := (h.queues.symm.pop hwaiting fun i hne hi => hstay i hne (Sync.stuck_iff.1 hi)).symm
    have hresumes : w.ledger.Resumes (w.sync.step (cpu, .post)) [] w.ledger.lockOrder
        [w.sync.sem.waiters.get.1] w.sync.sem.waiters.get.2.contents :=
      ⟨rfl, horder, fun i hi => mem_singleton.1 hi ▸ hup, hpop.stuck⟩
    refine ⟨?_, inOrder_of_resumes hresumes, fun _ _ => ⟨_, horder ▸ mem_cons_self, hup⟩⟩
    rw [step, Ledger.note, if_pos hcalls, hresumes.resume_eq, Ledger.call]
    rw [hs] at hpop ⊢
    refine ⟨h.net.unblockLocked _, hpop, h.holder, ?_, h.range⟩
    dsimp only [length_singleton]
    omega
  · -- the permit is kept
    have hmax : w.sync.sem.permits ≠ 2 ^ 31 - 1 := hroom hcalls (by omega)
    have hs : w.sync.step (cpu, .post) = { w.sync with
        sem := { w.sync.sem with permits := w.sync.sem.permits + 1 } } := by
      simp only [Sync.step, hcalls, if_true, Sync.imprimaturPost, if_neg hwaiting]
      rw [wrap32_eq (by omega) (by omega)]
    refine h.kept_of_nobody (l := { w.ledger with posts := w.ledger.posts + 1 }) hs
      (fun _ hi => hi) ?_ (fun _ hsome => absurd (h.queues.symm.nil hwaiting) hsome)
      ⟨h.net, h.queues, h.holder, ?_, ?_⟩
    · rw [if_pos hcalls, Ledger.call]
    · push_cast
      omega
    · exact ⟨by dsimp only; omega, by dsimp only; omega⟩

/-- **Every step.** -/
theorem Inv.step (h : Inv p w) (hslot : w.FindsSlot e) (hroom : w.HasRoom e) : Kept p w e := by
  obtain ⟨cpu, op⟩ := e
  cases hcalls : w.sync.calls cpu with
  | true =>
    cases op with
    | sched ev =>
      cases hwhole : ev.whole with
      | true => exact h.sched hwhole (hslot ev rfl)
      | false =>
        refine h.same (by simp [Sync.step, hwhole]) ?_ fun _ => trivial
        rw [if_pos hcalls, Ledger.call]
    | lock => exact h.lock hcalls hroom
    | unlock => exact h.unlock hcalls
    | wait => exact h.wait hcalls hroom
    | post => exact h.post hcalls hroom
  | false =>
    have hout : ∀ {op : Op}, w.sync.step (cpu, op) = w.sync → Kept p w (cpu, op) := fun hsame =>
      h.same hsame (by rw [if_neg (by rw [hcalls]; decide)]) fun hc => nomatch hcalls.symm.trans hc
    cases op with
    | sched ev =>
      cases hwhole : ev.whole with
      | true => exact h.sched hwhole (hslot ev rfl)
      | false => exact hout (by simp [Sync.step, hwhole])
    | lock | unlock | wait | post => exact hout (by simp [Sync.step, hcalls])

/-! ## Without room -/

/-- A step without room loses the Sister that blocks, or the count of permits. -/
theorem Inv.hasRoom (h : Inv p w) (hfair : Fair p (w.step e)) : w.HasRoom e := by
  obtain ⟨cpu, op⟩ := e
  intro hcalls
  obtain ⟨hon, hw⟩ := Sync.calls_iff.1 hcalls
  have hout := h.current_not_mem hon
  have hconserved := h.conserved
  cases op with
  | sched _ | unlock => trivial
  | lock =>
    intro hheld
    by_contra hfull
    obtain ⟨-, hself, -⟩ := lendAndBlock h.net hon hw
    have hlock : w.sync.step (cpu, .lock) = { w.sync with
        net := (w.sync.lendLevel cpu).blockCurrentLocked cpu } := by
      simp only [Sync.step, hcalls, if_true, Sync.judgementLock, if_pos hheld, enqueue]
      rw [if_pos (not_lt.1 hfull)]
    have hstuck : (w.sync.step (cpu, .lock)).stuck (w.sync.net.current cpu) = true := by
      rw [hlock, Sync.stuck_iff]
      exact hself
    have hmem : w.sync.net.current cpu ∈ (w.step (cpu, .lock)).ledger.lockOrder := by
      rw [World.step, Ledger.note, if_pos hcalls, Ledger.call, if_pos hstuck]
      exact mem_append_right _ (mem_singleton_self _)
    have hqueue := hfair.lockRecorded _ hmem
    rw [World.step, hlock] at hqueue
    exact hout (mem_append_left _ (h.queues.contents ▸ hqueue))
  | wait =>
    intro hpermit
    by_contra hfull
    obtain ⟨-, hself, -⟩ := blocks h.net hon hw
    have hwait : w.sync.step (cpu, .wait) =
      { w.sync with net := w.sync.net.blockCurrentLocked cpu } := by
      simp only [Sync.step, hcalls, if_true, Sync.imprimaturWait,
        if_neg (not_lt.2 hpermit), enqueue]
      rw [if_pos (not_lt.1 hfull)]
    have hstuck : (w.sync.step (cpu, .wait)).stuck (w.sync.net.current cpu) = true := by
      rw [hwait, Sync.stuck_iff]
      exact hself
    have hmem : w.sync.net.current cpu ∈ (w.step (cpu, .wait)).ledger.semOrder := by
      rw [World.step, Ledger.note, if_pos hcalls, Ledger.call, if_pos hstuck]
      exact mem_append_right _ (mem_singleton_self _)
    have hqueue := hfair.semRecorded _ hmem
    rw [World.step, hwait] at hqueue
    exact hout (mem_append_right _ (h.queues.contents' ▸ hqueue))
  | post =>
    intro hempty hmax
    have hpost : w.sync.step (cpu, .post) = { w.sync with
        sem := { w.sync.sem with permits := -2 ^ 31 } } := by
      simp only [Sync.step, hcalls, Sync.imprimaturPost, hempty, hmax]
      rfl
    have hnobody := h.nobody (s := w.sync.step (cpu, .post)) fun i hi => by rw [hpost]; exact hi
    have hcons := hfair.conserved
    rw [World.step, Ledger.note, if_pos hcalls, hnobody.resume_eq, Ledger.call, hpost] at hcons
    dsimp only [length_nil] at hcons
    omega

theorem opening_inv (p : Int) (hlow : -2 ^ 31 ≤ p) (hhigh : p < 2 ^ 31) : Inv p (opening p) := by
  refine ⟨init_inv,
    ⟨RingBuffer.tidy_empty _ (by decide), RingBuffer.tidy_empty _ (by decide), rfl, rfl,
    nodup_nil, fun i hi => absurd hi (by simp [opening])⟩, Or.inl
      ⟨rfl, rfl, rfl, rfl⟩, by simp [opening],
    hlow, hhigh⟩

end World

/-- **Main theorem.**  Start with any number of permits.  In a run in which each CPU that comes up
finds a free slot, the mutex and the semaphore are fair in every state and resume their waiters in
order, one with every unlock and every post, exactly if every Sister that has to wait finds a place
in the ring and no post makes the count of permits overflow. -/
theorem fair_iff (p : Int) (hlow : -2 ^ 31 ≤ p) (hhigh : p < 2 ^ 31) (es : List (Cpu × Op))
    (hslots : EachStep World.step World.FindsSlot (opening p) es) :
    (Always World.step (World.Fair p) (opening p) es ∧
        EachStep World.step (fun w e => w.InOrder e ∧ w.Serves e) (opening p) es) ↔
      EachStep World.step World.HasRoom (opening p) es := by
  have hinv := World.opening_inv p hlow hhigh
  have hiff : Always World.step (World.Fair p) (opening p) es ↔
      EachStep World.step World.HasRoom (opening p) es :=
    always_iff_eachStep (fun _ h => h.fair) (fun _ _ h hs hr => (h.step hs hr).1)
      (fun _ _ h _ hf => h.hasRoom hf) hinv hslots
  refine ⟨fun h => hiff.1 h.1, fun h => ⟨hiff.2 h, ?_⟩⟩
  exact EachStep.of_invariant
    (fun _ _ hw hq => (hw.step hq.1 hq.2).2) (fun _ _ hw hq => (hw.step hq.1 hq.2).1) hinv
    (hslots.and h)

/-- The boot CPU. -/
def cpu0 : Cpu := 0

/-- Two Sisters and the mutex: the second waits and gets it from the first, while a permit is posted
and taken. -/
def handOver : List (Cpu × Op) :=
  [(cpu0, .sched (.spawn 5)), (cpu0, .lock), (cpu0, .sched .yield), (cpu0, .lock), (cpu0, .post),
    (cpu0, .unlock), (cpu0, .wait), (cpu0, .sched .yield), (cpu0, .unlock)]

theorem handOver_fair :
    Always World.step (World.Fair 0) (opening 0) handOver ∧
      EachStep World.step (fun w e => w.InOrder e ∧ w.Serves e) (opening 0) handOver := by
  refine (fair_iff 0 (by decide) (by decide) handOver ?_).2 ?_
  · refine ⟨?_, ?_, ?_, ?_, ?_, ?_, ?_, ?_, ?_, trivial⟩ <;> rintro ev ⟨⟩ ⟨⟩
  · refine ⟨?_, ?_, ?_, ?_, ?_, ?_, ?_, ?_, ?_, trivial⟩ <;> intro _
    · trivial
    · exact fun _ => by decide +kernel
    · trivial
    · exact fun _ => by decide +kernel
    · exact fun _ => by decide +kernel
    · trivial
    · exact fun _ => by decide +kernel
    · trivial
    · trivial

/-- The shell holds the mutex, and ten Sisters come to wait for it. -/
def tenWaiters : List (Cpu × Op) :=
  replicate 10 (cpu0, .sched (.spawn 5)) ++ [(cpu0, .lock), (cpu0, .sched .yield)] ++
    replicate 9 (cpu0, .lock)

set_option maxRecDepth 100000 in
/-- The ninth of them is blocked and in no queue. -/
theorem tenWaiters_lost : ¬ Always World.step (World.Fair 0) (opening 0) tenWaiters := by
  intro h
  have hlost : (⟨10, by decide⟩ : Id) ∈ (Traces.run World.step
      (opening 0) tenWaiters).ledger.lockOrder ∧ (⟨10, by decide⟩ : Id) ∉
        (Traces.run World.step
          (opening 0) tenWaiters).sync.lock.waiters.contents := by decide +kernel
  exact hlost.2 (h.last.lockRecorded _ hlost.1)

end IndexOS.Misaka
