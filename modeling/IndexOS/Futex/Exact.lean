import IndexOS.Futex.Words
import IndexOS.Reality.Isolation

/-!
# Futex wake-ups are exact

A wake finds its waiters by the physical address of the word, so it is exact as long as that address
names the word: from the moment a call has looked it up, or a thread has been parked with it, the
page must stay where it is, and no other word with waiters may be at the same place.

* `Law` — what a futex call may do to the threads;
* `Meets` — what is asked of a step: a fault makes no copy of a page on which somebody waits or is
  about to; a wake goes to a place where only the waiters of its own word are; the two counts of a
  requeue have a sum that is an `int`; nobody parks elsewhere with the mark of an earlier futex
  wait;
* `Inv` — physical addresses are up to date and the marks are those of the threads that are blocked;
* **`run_lawful`** — in every run from boot whose steps meet the condition every call keeps to the
  law.
-/

set_option autoImplicit false

namespace IndexOS.Futex

open List Reality
open Descriptors (kMaxEspers)
open Espers (EsperState)
open Reality (Machine SpaceId Files Ground Role Booted Copies NoWrap Keeps held slotOf)
open TreeDiagram (kPageSize alignDown)

/-! ## The law -/

/-- The threads blocked on the word. -/
def waiters (s : Sys) (w : Word) : List Tid :=
  (finRange kMaxEspers).filter fun i => (s.threads i).Blocked w

/-- The threads blocked on the word that a step has made runnable. -/
def released (s s' : Sys) (w : Word) : List Tid :=
  (finRange kMaxEspers).filter fun i => (s.threads i).Blocked w ∧ (s'.threads i).state = .ready

/-- The call of `t` makes no thread runnable that is not blocked on the word, and changes a thread
only to make it runnable. -/
def OnlyWaiters (s : Sys) (w : Word) (t : Tid) (s' : Sys) : Prop :=
  ∀ i, i ≠ t → s'.threads i = s.threads i ∨
    (s.threads i).Blocked w ∧ (s'.threads i).state = .ready

/-- What the call of `t` on the word may do. -/
def Law (s : Sys) (w : Word) (t : Tid) (s' : Sys) : FutexOp → Prop
  | .wait val => (s'.threads t).Blocked w → wordAt s.mem w = some val
  | .wake n =>
    OnlyWaiters s w t s' ∧ (released s s' w).length = min n (waiters s w).length ∧
      (s'.threads t).x0 = (released s s' w).length
  | .requeue n m => OnlyWaiters s w t s' ∧ min (n + m) (waiters s w).length ≤
    (released s s' w).length
  | .cmpRequeue n m expect =>
    OnlyWaiters s w t s' ∧ (wordAt s.mem w = some expect →
      min (n + m) (waiters s w).length ≤ (released s s' w).length)

/-- Every call that ends in the step keeps to the law. -/
def Lawful (s : Sys) : Event → Prop
  | .finish t =>
    ∀ c, (s.threads t).call = some c → Law s ((s.threads t).space, c.va) t (step s (.finish t)) c.op
  | _ => True

/-- Every step of the run does. -/
abbrev RunLawful : Sys → List Event → Prop := Traces.EachStep step Lawful

/-! ## The condition -/

/-- The counts are between 0 and 2 ^ 31 - 1. -/
def FutexOp.InRange : FutexOp → Prop
  | .wait _ => True
  | .wake n => n < 2 ^ 31
  | .requeue n m => n < 2 ^ 31 ∧ m < 2 ^ 31
  | .cmpRequeue n m _ => n < 2 ^ 31 ∧ m < 2 ^ 31

def Event.InRange : Event → Prop
  | .enter _ _ _ op => op.InRange
  | _ => True

/-- The thread is blocked on the word, or is in a call about it. -/
def Thread.Engaged (th : Thread) (w : Word) : Prop :=
  th.Blocked w ∨ ∃ c, th.call = some c ∧ w = (th.space, c.va)

/-- A fault at the address makes no copy, or nobody is engaged on the page. -/
def Undisturbed (s : Sys) (sp : SpaceId) (va : Nat) : Prop :=
  Copies s.mem sp va → ∀ i w, (s.threads i).Engaged w → (w.1, slotOf w.2) ≠ (sp, slotOf va)

/-- No thread is blocked on another word at the same place. -/
def Alone (s : Sys) (w : Word) : Prop :=
  ∀ i w', (s.threads i).Blocked w' → w' ≠ w → physAt s.mem w' ≠ physAt s.mem w

def Meets (s : Sys) : Event → Prop
  | .fork t _ => NoWrap s.mem (s.threads t).space
  | .enter t _ va _ => Undisturbed s (s.threads t).space va
  | .fault t _ va => Undisturbed s (s.threads t).space va
  | .writeUser t _ va _ => Undisturbed s (s.threads t).space va
  | .finish t =>
    ∀ c, (s.threads t).call = some c →
      match c.op with
      | .wait _ => True
      | .wake _ => Alone s ((s.threads t).space, c.va)
      | .requeue n m => Alone s ((s.threads t).space, c.va) ∧ n + m < 2 ^ 31
      | .cmpRequeue n m _ => Alone s ((s.threads t).space, c.va) ∧ n + m < 2 ^ 31
  | .park t clears => clears = true ∨ (s.threads t).waitFutex = false
  | _ => True

abbrev RunMeets : Sys → List Event → Prop := Traces.EachStep step Meets

/-! ## The invariant -/

/-- What the invariant says of a thread. -/
structure Thread.Fits (m : Machine) (th : Thread) : Prop where
  blocked : ∀ w, th.Blocked w → th.waitFutex = true ∧ physAt m w = some th.waitFutexPhys
  marked : th.state = .waiting → th.waitFutex = true → ∃ w, th.Blocked w
  calls : ∀ c, th.call = some c →
    th.state = .running ∧ physAt m (th.space, c.va) = some c.phys ∧ c.op.InRange

structure Inv (G : Ground) (s : Sys) : Prop where
  mem : ∃ role, Reality.Inv G s.mem role
  fits : ∀ i, (s.threads i).Fits s.mem

variable {G : Ground} {s : Sys} {m' : Machine} {m : Machine} {th : Thread}

/-- The physical address of a word is that of its page. -/
theorem physAt_of_keeps {w : Word} {p : Nat} (h : physAt m w = some p)
    (hkeep : ∀ f, held m (w.1, slotOf w.2) = some f → held m' (w.1, slotOf w.2) = some f) :
    physAt m' w = some p := by
  rw [physAt, Option.map_eq_some_iff] at h ⊢
  obtain ⟨f, hf, hp⟩ := h
  exact ⟨f, hkeep f hf, hp⟩

/-- The invariant is kept by what moves no page on which somebody is engaged. -/
theorem Inv.memory (I : Inv G s) (hmem : ∃ role, Reality.Inv G m' role)
    (hkeep : ∀ i w f, (s.threads i).Engaged w → held s.mem (w.1, slotOf w.2) = some f →
      held m' (w.1, slotOf w.2) = some f) : Inv G { s with mem := m' } := by
  refine ⟨hmem, fun i => ⟨fun w hb => ?_, (I.fits i).marked, fun c hc => ?_⟩⟩
  · obtain ⟨hmark, hphys⟩ := (I.fits i).blocked w hb
    exact ⟨hmark, physAt_of_keeps hphys (hkeep i w · (.inl hb))⟩
  · obtain ⟨hrun, hphys, hrange⟩ := (I.fits i).calls c hc
    exact ⟨hrun, physAt_of_keeps hphys (hkeep i _ · (.inr ⟨c, hc, rfl⟩)), hrange⟩

theorem Inv.memory_keeps (I : Inv G s) (hmem : ∃ role, Reality.Inv G m' role)
    (hkeeps : Keeps s.mem m') : Inv G { s with mem := m' } :=
  I.memory hmem fun _ _ f _ hf => hkeeps _ f hf

/-- A thread that neither waits nor is in a call is no matter. -/
theorem Thread.Fits.idle (hstate : th.state ≠ .waiting) (hcall : th.call = none) :
    th.Fits m :=
  ⟨fun _ hb => absurd hb.1 hstate, fun hw => absurd hw hstate,
    fun _ hc => nomatch hcall.symm.trans hc⟩

theorem Inv.set (I : Inv G s) (t : Tid) (hth : th.Fits s.mem) : Inv G (s.set t th) := by
  refine ⟨I.mem, fun i => ?_⟩
  rw [Sys.set_threads]
  split
  · exact hth
  · exact I.fits i

theorem Inv.set_idle (I : Inv G s) (t : Tid) (hstate : th.state ≠ .waiting)
    (hcall : th.call = none) : Inv G (s.set t th) := I.set t (.idle hstate hcall)

/-- Who waits is in no call. -/
theorem Inv.call_none (I : Inv G s) {i : Tid} (h : (s.threads i).state ≠ .running) :
    (s.threads i).call = none := by
  by_contra hc
  obtain ⟨c, hc⟩ := Option.ne_none_iff_exists'.mp hc
  exact h ((I.fits i).calls c hc).1

/-! ## Looking up a word -/

theorem userPhys_mem (files : Files) (m : Machine) (sp : SpaceId) (va : Nat) :
    (userPhys files m sp va).1 = (handleFault files m sp va).1 := by
  unfold userPhys
  cases handleFault files m sp va with
  | mk m₁ ok =>
    cases ok with
    | false => rfl
    | true =>
      cases m.spaces sp with
      | none => rfl
      | some space =>
        simp only
        split <;> rfl

/-- What is looked up is where the word is. -/
theorem userPhys_physAt {role : Nat → Role} (I : Reality.Inv G m role)
    (hc : Reality.Counted G) (files : Files) (sp : SpaceId) (va : Nat) {p : Nat}
    (h : (userPhys files m sp va).2 = some p) :
    physAt (handleFault files m sp va).1 (sp, va) = some p := by
  obtain ⟨role', I', hlocal, hres⟩ := handleFault_spec I hc files sp va
  unfold userPhys at h
  generalize handleFault files m sp va = r at *
  obtain ⟨m₁, ok⟩ := r
  cases ok with
  | false => cases h
  | true =>
    cases hsp : m.spaces sp with
    | none => rw [hsp] at h; cases h
    | some space =>
      obtain ⟨f, hf⟩ := hres.present rfl
      rw [hsp] at h
      simp only at h hf
      have hlinks : Links (leaf m₁ sp (slotOf va)) := by
        by_contra hno
        rw [held, mapped, if_neg hno] at hf
        cases hf
      have hwalk : lookupL3 m₁ space.ttbr0 (alignDown va) = leaf m₁ sp (slotOf va) := by
        rw [← slotOf_alignDown va] at hlinks ⊢
        have hsp₁ : m₁.spaces sp = some space := by rw [hlocal.spaces_eq]; exact hsp
        refine lookupL3_eq_leaf hsp₁ fun hshare => ?_
        have hown : ¬ Own m₁ space.ttbr0 (l1Index (alignDown va)) :=
          fun hown => hown.2 hshare.2
        have hzero : leaf m₁ sp (slotOf (alignDown va)) = 0 := by
          rw [leaf, hsp₁]
          exact if_neg hown
        rw [hzero] at hlinks
        exact not_links_zero hlinks
      rw [hwalk, if_pos hlinks] at h
      simp only [Option.some.injEq] at h
      rw [physAt, mapped, if_pos hlinks, Option.map_some, h]

/-! ## The wake loop -/

/-- The loop wakes the first threads that match, as many as are left to be woken. -/
theorem wakeLoop_eq (phys : Nat) (count : Int) (is : List Tid) :
    ∀ (woken : Nat) (ths : Tid → Thread), is.Nodup →
      wakeLoop phys count is woken ths =
        (fun i => if i ∈ (is.filter fun i => (ths i).matches phys).take (count - woken).toNat
            then (ths i).woken else ths i,
          woken + ((is.filter fun i => (ths i).matches phys).take
            (count - woken).toNat).length) := by
  induction is with
  | nil =>
    simp [wakeLoop]
  | cons i is ih =>
    intro woken ths hnodup
    obtain ⟨hi, hnodup⟩ := nodup_cons.mp hnodup
    have hcons : (i :: is).filter (fun i => (ths i).matches phys) =
        if (ths i).matches phys = true then i :: is.filter fun i => (ths i).matches phys
        else is.filter fun i => (ths i).matches phys := filter_cons
    rw [wakeLoop]
    by_cases hlt : (woken : Int) < count
    · rw [if_pos hlt]
      by_cases hm : (ths i).matches phys = true
      · have hn : (count - woken).toNat = (count - (woken + 1 : Nat)).toNat + 1 := by omega
        have hsame : (is.filter fun j => (Function.update ths i (ths i).woken j).matches phys) =
            is.filter fun j => (ths j).matches phys := by
          refine filter_congr fun j hj => ?_
          have hne : j ≠ i := by
            rintro rfl
            exact hi hj
          rw [Function.update_of_ne hne]
        rw [if_pos hm, ih _ _ hnodup, hsame, hcons, if_pos hm, hn, take_succ_cons]
        refine Prod.ext (funext fun j => ?_) ?_
        · by_cases hj : j = i
          · subst hj
            have hnot : j ∉ (is.filter fun j => (ths j).matches phys).take
                (count - (woken + 1 : Nat)).toNat :=
              fun h => hi (mem_of_mem_filter (mem_of_mem_take h))
            dsimp only
            rw [if_neg hnot, Function.update_self, if_pos (mem_cons_self ..)]
          · simp [hj]
        · simp only [length_cons]
          omega
      · rw [if_neg hm, ih _ _ hnodup, hcons, if_neg hm]
    · have hn : (count - woken).toNat = 0 := by omega
      rw [if_neg hlt, hn]
      simp

/-- The threads that `futex_wake_phys` wakes. -/
def chosen (s : Sys) (phys : Nat) (count : Int) : List Tid :=
  ((finRange kMaxEspers).filter fun i => (s.threads i).matches phys).take count.toNat

theorem futexWakePhys_eq (s : Sys) (phys : Nat) (count : Int) :
    futexWakePhys phys count s.threads =
      (fun i => if i ∈ chosen s phys count then (s.threads i).woken else s.threads i,
        (chosen s phys count).length) := by
  have hcount : (count - (0 : Nat)).toNat = count.toNat := by simp
  rw [futexWakePhys, wakeLoop_eq phys count _ 0 s.threads (nodup_finRange _), hcount, Nat.zero_add]
  rfl

theorem chosen_matches {s : Sys} {phys : Nat} {count : Int} {i : Tid}
    (h : i ∈ chosen s phys count) : (s.threads i).matches phys = true :=
  (mem_filter.mp (mem_of_mem_take h)).2

variable {c : Call} {t : Tid}

/-- The threads after a wake: the chosen ones are ready, and the caller has its answer. -/
theorem wakeFrom_threads {s : Sys} {phys : Nat} {count : Int} (ht : (s.threads t).state = .running)
    (i : Tid) :
    (wakeFrom s t phys count).threads i =
      if i = t then { s.threads t with call := none, x0 := (chosen s phys count).length }
      else if i ∈ chosen s phys count then (s.threads i).woken else s.threads i := by
  have hnot : t ∉ chosen s phys count := by
    intro h
    have hm := chosen_matches h
    simp [Thread.matches, ht] at hm
  rw [wakeFrom]
  simp only [futexWakePhys_eq, Sys.set_threads, if_neg hnot]

theorem asInt_of_lt {n : Nat} (h : n < 2 ^ 31) : asInt n = n := by
  have hn : n % 2 ^ 32 = n := Nat.mod_eq_of_lt (by omega)
  rw [asInt, hn, if_pos h]

/-! ## One step -/

section
variable (I : Inv G s) (hc : (s.threads t).call = some c)
include I hc

theorem wakeFrom_inv (phys : Nat) (count : Int) :
    Inv G (wakeFrom s t phys count) := by
  have hrun := ((I.fits t).calls c hc).1
  refine ⟨I.mem, fun i => ?_⟩
  rw [wakeFrom_threads hrun i]
  split
  · exact .idle (by rw [hrun]; decide) rfl
  split
  next hi =>
    have hm := chosen_matches hi
    simp only [Thread.matches, decide_eq_true_eq] at hm
    exact .idle (by simp [Thread.woken]) (I.call_none (by rw [hm.1]; decide))
  · exact I.fits i

theorem answer_inv (x0 : Int) : Inv G (answer s t x0) := by
  have hrun := ((I.fits t).calls c hc).1
  exact I.set_idle t (by rw [hrun]; decide) rfl

theorem futexLocked_inv : Inv G (futexLocked s t c) := by
  obtain ⟨-, hphys, -⟩ := (I.fits t).calls c hc
  unfold futexLocked
  cases c.op with
  | wake | requeue => exact wakeFrom_inv I hc _ _
  | wait val =>
    dsimp only
    split
    · exact answer_inv I hc _
    · refine I.set t ⟨?_, ?_, ?_⟩
      · rintro ⟨sp, va⟩ ⟨-, hsp, hva⟩
        simp only [Option.some.injEq] at hsp hva
        rw [← hsp, ← hva]
        exact ⟨rfl, hphys⟩
      · intro _ _
        exact ⟨((s.threads t).space, c.va), rfl, rfl, rfl⟩
      · intro c' hc'
        cases hc'
  | cmpRequeue n m expect =>
    dsimp only
    split
    · exact answer_inv I hc _
    · exact wakeFrom_inv I hc _ _

end

section
variable (I : Inv G s) (hc : Reality.Counted G) (hx : ¬ G.excl)
include I hc hx

/-- A fault keeps the invariant when it makes no copy of a page on which somebody is engaged. -/
theorem Inv.fault (files : Files) (sp : SpaceId) (va : Nat) (h : Undisturbed s sp va) :
    Inv G { s with mem := (handleFault files s.mem sp va).1 } := by
  obtain ⟨role, hmem⟩ := I.mem
  refine I.memory ?_ fun i w f hw hf => handleFault_keeps hmem hc hx files sp va hf ?_
  · obtain ⟨role', hmem', -⟩ := handleFault_spec hmem hc files sp va
    exact ⟨role', hmem'⟩
  · by_cases hcopies : Copies s.mem sp va
    · exact .inl (h hcopies i w hw)
    · exact .inr hcopies

theorem Inv.writeUser (files : Files) (sp : SpaceId) (va : Nat) (b : UInt8)
    (h : Undisturbed s sp va) : Inv G { s with mem := (writeUser files sp va [b] s.mem).1 } := by
  obtain ⟨role, hmem⟩ := I.mem
  refine I.memory (writeUser_spec hc files sp [b] va s.mem role hmem).1
    fun i w f hw hf => writeByte_keeps hmem hc hx files sp va hf ?_ b
  by_cases hcopies : Copies s.mem sp va
  · exact .inl (h hcopies i w hw)
  · exact .inr hcopies

theorem Inv.enter (files : Files) (va : Nat) (op : FutexOp) (hrange : op.InRange)
    (hmeets : Undisturbed s (s.threads t).space va) : Inv G (step s (.enter t files va op)) := by
  rw [step]
  split
  next huser =>
    have hrun : (s.threads t).state = .running ∧ (s.threads t).call = none := by
      simpa [Thread.inUser] using huser
    have I' := I.fault hc hx files _ va hmeets
    obtain ⟨role, hmem⟩ := I.mem
    have hphys := fun p => userPhys_physAt (p := p) hmem hc files (s.threads t).space va
    rw [← userPhys_mem] at I'
    simp only [← userPhys_mem] at hphys
    generalize userPhys files s.mem (s.threads t).space va = r at *
    obtain ⟨m, _ | p⟩ := r
    · exact I'.set_idle t (by simp [hrun.1]) hrun.2
    · refine I'.set t ⟨fun w hb => ?_, fun hw => ?_, fun c hc => ?_⟩
      · have hw := hb.1
        simp [hrun.1] at hw
      · simp [hrun.1] at hw
      · simp only [Option.some.injEq] at hc
        subst hc
        exact ⟨hrun.1, hphys p rfl, hrange⟩
  · exact I

/-- **One step** keeps the invariant. -/
theorem step_inv (hex : ¬ G.exact) (ev : Event) (hrange : ev.InRange) (hmeets : Meets s ev) :
    Inv G (step s ev) := by
  obtain ⟨role, hmem⟩ := I.mem
  cases ev with
  | create =>
    exact I.memory_keeps (Reality.step_inv hmem hc .create trivial) (Reality.create_keeps hmem)
  | addVma sp start fin prot kind fileSrc fileOff fileSize segVaddr filePath =>
    exact I.memory_keeps
      (Reality.step_inv hmem hc
        (.addVma sp start fin prot kind fileSrc fileOff fileSize segVaddr filePath) trivial)
      (addRegion_keeps hmem sp fun vs =>
        addVma vs start fin prot kind fileSrc fileOff fileSize segVaddr filePath)
  | spawn t sp =>
    rw [step]
    split
    · exact I.set_idle t (by simp) rfl
    · exact I
  | fork t child =>
    rw [step]
    split
    · have I' := I.memory_keeps (fork_spec hmem (s.threads t).space hmeets (fun h => absurd h hex))
        (fork_keeps hmem (s.threads t).space hmeets (fun h => absurd h hex))
      generalize fork s.mem (s.threads t).space = r at *
      obtain ⟨m, _ | c⟩ := r
      · exact I'
      · exact I'.set_idle child (by simp) rfl
    · exact I
  | enter t files va op => exact I.enter hc hx files va op hrange hmeets
  | finish t =>
    rw [step]
    split
    next c hcall => exact futexLocked_inv I hcall
    · exact I
  | store t va b =>
    rw [step]
    split
    · exact I.memory_keeps (store_spec hmem _ va b).1 (store_keeps hmem _ va b)
    · exact I
  | fault t files va =>
    rw [step]
    split
    · exact I.fault hc hx files _ va hmeets
    · exact I
  | writeUser t files va b =>
    rw [step]
    split
    · exact I.writeUser hc hx files _ va b hmeets
    · exact I
  | park t clears =>
    rw [step]
    split
    next huser =>
      have hcall : (s.threads t).call = none := by
        have h := huser
        simp only [Thread.inUser, Option.isNone_iff_eq_none, decide_eq_true_eq] at h
        exact h.2
      refine I.set t ⟨fun w hb => ?_, fun _ hm => ?_, fun c hc => ?_⟩
      · cases hb.2.2
      · rcases hmeets with rfl | hclear
        · simp at hm
        · simp [hclear] at hm
      · simp only [hcall] at hc
        cases hc
    · exact I
  | wake t =>
    rw [step]
    split
    next hw => exact I.set_idle t (by simp) (I.call_none (by rw [hw]; decide))
    · exact I
  | run t =>
    rw [step]
    split
    next hr => exact I.set_idle t (by simp) (I.call_none (by rw [hr]; decide))
    · exact I
  | preempt t =>
    rw [step]
    split
    next huser =>
      simp only [Thread.inUser, Option.isNone_iff_eq_none, decide_eq_true_eq] at huser
      exact I.set_idle t (by simp) huser.2
    · exact I
  | exit t =>
    rw [step]
    split
    next hexit => exact I.set_idle t (by simp) (by simpa using hexit.2)
    · exact I

end

/-! ## The law is kept -/

section
variable {t : Tid} {c : Call}

section
variable (I : Inv G s) (hc : (s.threads t).call = some c)
  (halone : Alone s ((s.threads t).space, c.va))
include I hc halone

/-- Where only the waiters of the word are, the loop looks for exactly them. -/
theorem Inv.matches_iff (i : Tid) :
    (s.threads i).matches c.phys = true ↔ (s.threads i).Blocked ((s.threads t).space, c.va) := by
  have hphys := ((I.fits t).calls c hc).2.1
  rw [Thread.matches, decide_eq_true_eq]
  constructor
  · rintro ⟨hw, hm, hp⟩
    obtain ⟨w, hb⟩ := (I.fits i).marked hw hm
    by_cases hne : w = ((s.threads t).space, c.va)
    · exact hne ▸ hb
    · refine absurd ?_ (halone i w hb hne)
      rw [((I.fits i).blocked w hb).2, hphys, hp]
  · intro hb
    obtain ⟨hm, hp⟩ := (I.fits i).blocked _ hb
    rw [hphys, Option.some.injEq] at hp
    exact ⟨hb.1, hm, hp.symm⟩

theorem Inv.chosen_eq (count : Int) :
    chosen s c.phys count = (waiters s ((s.threads t).space, c.va)).take count.toNat := by
  rw [chosen]
  congr 1
  refine filter_congr fun i _ => ?_
  rw [Bool.eq_iff_iff, I.matches_iff hc halone i, decide_eq_true_eq]

end

theorem filter_mem_take {α : Type} [DecidableEq α] (l : List α) (hl : l.Nodup) (n : Nat) :
    l.filter (fun x => x ∈ l.take n) = l.take n := by
  have hsplit := take_append_drop n l
  have hdisj : ∀ x ∈ l.drop n, x ∉ l.take n := by
    intro x hx hx'
    rw [← hsplit] at hl
    exact (nodup_append.mp hl).2.2 x hx' x hx rfl
  calc l.filter (fun x => x ∈ l.take n)
      = (l.take n ++ l.drop n).filter (fun x => x ∈ l.take n) := by rw [hsplit]
    _ = l.take n := by
      rw [filter_append, filter_eq_self.mpr (by simp),
        filter_eq_nil_iff.mpr (by simpa using hdisj), append_nil]

/-- A wake releases the first of the waiters, as many as it counts, and nobody else. -/
theorem Inv.wakeFrom_law (I : Inv G s) (hc : (s.threads t).call = some c)
    (halone : Alone s ((s.threads t).space, c.va)) (count : Int) :
    OnlyWaiters s ((s.threads t).space, c.va) t (wakeFrom s t c.phys count) ∧
      released s (wakeFrom s t c.phys count) ((s.threads t).space, c.va) =
        (waiters s ((s.threads t).space, c.va)).take count.toNat ∧
      ((wakeFrom s t c.phys count).threads t).x0 =
        ((waiters s ((s.threads t).space, c.va)).take count.toNat).length := by
  have hrun := ((I.fits t).calls c hc).1
  have hchosen := I.chosen_eq hc halone count
  refine ⟨fun i hi => ?_, ?_, ?_⟩
  · rw [wakeFrom_threads hrun i, if_neg hi]
    split
    next hmem => exact .inr ⟨(I.matches_iff hc halone i).mp (chosen_matches hmem), rfl⟩
    · exact .inl rfl
  · rw [← filter_mem_take (waiters s _) ((nodup_finRange _).filter _), waiters,
      filter_filter]
    refine filter_congr fun i _ => ?_
    rw [Bool.eq_iff_iff]
    simp only [decide_eq_true_eq, Bool.and_eq_true]
    rw [and_comm]
    refine and_congr_left fun hb => ?_
    have hne : i ≠ t := by
      rintro rfl
      cases hrun.symm.trans hb.1
    rw [wakeFrom_threads hrun i, if_neg hne, hchosen, ← waiters]
    split
    next hmem => simp [hmem, Thread.woken]
    next hmem =>
      have hw : (s.threads i).state = .waiting := hb.1
      simp [hmem, hw]
  · rw [wakeFrom_threads hrun t, if_pos rfl, hchosen]

theorem OnlyWaiters.answer (s : Sys) (w : Word) (t : Tid) (x0 : Int) :
    OnlyWaiters s w t (answer s t x0) := by
  intro i hi
  rw [Futex.answer, Sys.set_threads, if_neg hi]
  exact .inl rfl

/-- A call keeps to the law. -/
theorem Inv.lawful (I : Inv G s) (ev : Event) (hmeets : Meets s ev) : Lawful s ev := by
  cases ev with
  | finish t =>
    intro c hc
    obtain ⟨hrun, -, hrange⟩ := (I.fits t).calls c hc
    have hstep : step s (.finish t) = futexLocked s t c := by rw [step, hc]
    have hcond := hmeets c hc
    rw [hstep, futexLocked]
    cases hop : c.op with
    | wait val =>
      intro hb
      by_contra hdiff
      simp only [if_pos hdiff] at hb
      rw [answer, Sys.set_threads, if_pos rfl] at hb
      cases hrun.symm.trans hb.1
    | wake n =>
      rw [hop] at hcond hrange
      obtain ⟨honly, hreleased, hret⟩ := I.wakeFrom_law hc hcond (asInt n)
      rw [asInt_of_lt hrange, Int.toNat_natCast] at hreleased hret
      rw [asInt_of_lt hrange] at honly
      simp only [asInt_of_lt hrange]
      refine ⟨honly, ?_, ?_⟩
      · rw [hreleased, length_take]
      · rw [hreleased, hret]
    | requeue n m =>
      rw [hop] at hcond
      obtain ⟨honly, hreleased, -⟩ := I.wakeFrom_law hc hcond.1 (asInt (n + m))
      refine ⟨honly, ?_⟩
      rw [hreleased, asInt_of_lt hcond.2, Int.toNat_natCast, length_take]
    | cmpRequeue n m expect =>
      rw [hop] at hcond
      dsimp only
      split
      next hdiff => exact ⟨OnlyWaiters.answer s _ t _, fun h => absurd h hdiff⟩
      · obtain ⟨honly, hreleased, -⟩ := I.wakeFrom_law hc hcond.1 (asInt (n + m))
        refine ⟨honly, fun _ => ?_⟩
        rw [hreleased, asInt_of_lt hcond.2, Int.toNat_natCast, length_take]
  | _ => trivial

end

/-! ## Runs -/

/-- Before the first process no slot is taken. -/
theorem Inv.start {boot : Machine} (hboot : Booted boot) :
    Inv ⟨boot, False, False⟩ ⟨boot, fun _ => {}⟩ where
  mem := Booted.inv hboot
  fits i := .idle (by simp) rfl

theorem Inv.lawful_run (hc : Counted G) (hx : ¬ G.excl) (hex : ¬ G.exact) (evs : List Event) :
    ∀ s, Inv G s → (∀ ev ∈ evs, ev.InRange) → RunMeets s evs → RunLawful s evs := by
  induction evs with
  | nil => exact fun _ _ _ _ => trivial
  | cons ev evs ih =>
    intro s I hrange hmeets
    have hev := hrange ev (mem_cons_self ..)
    exact ⟨I.lawful ev hmeets.1, ih _ (step_inv I hc hx hex ev hev hmeets.1)
      (fun e he => hrange e (mem_cons_of_mem _ he)) hmeets.2⟩

/-- **Main theorem.** From boot, every futex call of every run whose steps meet the condition keeps
to the law. -/
theorem run_lawful (boot : Machine) (hboot : Booted boot) (evs : List Event)
    (hrange : ∀ ev ∈ evs, ev.InRange) (hmeets : RunMeets ⟨boot, fun _ => {}⟩ evs) :
    RunLawful ⟨boot, fun _ => {}⟩ evs :=
  Inv.lawful_run (G := ⟨boot, False, False⟩) (fun h => h.elim) (fun h => h) (fun h => h) evs _
    (Inv.start hboot) hrange hmeets

/-! ## One waiter -/

instance (m : Machine) (sp : SpaceId) (va : Nat) : Decidable (Copies m sp va) :=
  decidable_of_iff
    (Reality.WritableRegion m sp va = true ∧ ∃ f ∈ held m (sp, slotOf va), 1 < pageRefcount m f)
    Iff.rfl

theorem undisturbed_of_not_copies {sp : SpaceId} {va : Nat} (h : ¬ Copies s.mem sp va) :
    Undisturbed s sp va := fun hc => absurd hc h

theorem alone_iff (s : Sys) (w : Word) :
    Alone s w ↔ ∀ i, (s.threads i).state = .waiting → ∀ va ∈ (s.threads i).on,
      ((s.threads i).space, va) ≠ w → physAt s.mem ((s.threads i).space, va) ≠ physAt s.mem w := by
  constructor
  · intro h i hw va hva
    exact h i ((s.threads i).space, va) ⟨hw, rfl, hva⟩
  · rintro h i ⟨sp, va⟩ ⟨hw, hsp, hva⟩
    have hi := h i hw va hva
    rw [hsp] at hi
    exact hi

instance (s : Sys) (w : Word) : Decidable (Alone s w) := decidable_of_iff _ (alone_iff s w).symm

/-- Two threads of one process; the first waits for the word at 0 to change. -/
def waitThen (op : FutexOp) : List Event :=
  [.create, .addVma 0 0 4096 3 .anon 0 0 0 0 none, .spawn 0 0, .spawn 1 0, .run 0, .run 1,
    .enter 0 noFiles 0 (.wait 0), .finish 0, .enter 1 noFiles 0 op, .finish 1]

/-- What is asked of a call that is known. -/
theorem meets_finish {s : Sys} (hc : (s.threads t).call = some c)
    (h : match c.op with
      | .wait _ => True
      | .wake _ => Alone s ((s.threads t).space, c.va)
      | .requeue n m => Alone s ((s.threads t).space, c.va) ∧ n + m < 2 ^ 31
      | .cmpRequeue n m _ => Alone s ((s.threads t).space, c.va) ∧ n + m < 2 ^ 31) :
    Meets s (.finish t) := by
  intro c' hc'
  rw [hc, Option.some.injEq] at hc'
  rw [← hc']
  exact h

/-- The waiter is woken by a `FUTEX_WAKE` of one. -/
theorem wake_one_lawful :
    Booted smallMachine ∧ (∀ ev ∈ waitThen (.wake 1), ev.InRange) ∧
      RunMeets ⟨smallMachine, fun _ => {}⟩ (waitThen (.wake 1)) ∧
      RunLawful ⟨smallMachine, fun _ => {}⟩ (waitThen (.wake 1)) := by
  have hrange : ∀ ev ∈ waitThen (.wake 1), ev.InRange := by
    simp [waitThen, Event.InRange, FutexOp.InRange]
  have hmeets : RunMeets ⟨smallMachine, fun _ => {}⟩ (waitThen (.wake 1)) := by
    refine ⟨trivial, trivial, trivial, trivial, trivial, trivial,
      undisturbed_of_not_copies (by decide +kernel), ?_, undisturbed_of_not_copies
        (by decide +kernel),
      ?_, trivial⟩
    · exact meets_finish (c := ⟨0, .wait 0, 0x40004000⟩) (by decide +kernel) trivial
    · exact meets_finish (c := ⟨0, .wake 1, 0x40004000⟩) (by decide +kernel) (by decide +kernel)
  exact ⟨smallMachine_booted, hrange, hmeets,
    run_lawful smallMachine smallMachine_booted _ hrange hmeets⟩

/-- `FUTEX_REQUEUE` of 1 and 2 ^ 31 - 1 wakes nobody: the sum of the two is negative. -/
theorem requeue_strands :
    Booted smallMachine ∧ (∀ ev ∈ waitThen (.requeue 1 (2 ^ 31 - 1)), ev.InRange) ∧
      ¬ RunLawful ⟨smallMachine, fun _ => {}⟩ (waitThen (.requeue 1 (2 ^ 31 - 1))) := by
  refine ⟨smallMachine_booted, by simp [waitThen, Event.InRange, FutexOp.InRange], ?_⟩
  rintro ⟨-, -, -, -, -, -, -, -, -, h, -⟩
  have hlaw := (h ⟨0, .requeue 1 (2 ^ 31 - 1), 0x40004000⟩ (by decide +kernel)).2
  revert hlaw
  decide +kernel

end IndexOS.Futex
