import IndexOS.Esper.Endings

/-!
# What a step of a CPU can do

`g_running` says which Esper each CPU has claimed.  Every section that claims an Esper looks whether
another CPU has it, and a CPU writes no slot but its own.  The same sections wake, park and end
Espers, and some of them write a state without looking at the one before.  Both are followed here at
once, section by section and then step by step.

* `Frees`, `Picks` — what the sections can do to `g_running` and to those that have ended;
* `Machine.Held` — no Esper is in two slots, and the slot of a CPU fits its mode;
* `Machine.Resumes` — the Esper that a CPU goes on with at EL0;
* `Machine.TakesBackOwn`, `Machine.Blind` — the steps that take an Esper back, or write its state,
  without looking;
* `Machine.step_moves` — what every step does.
-/

set_option autoImplicit false

namespace IndexOS.Espers

open Kernel Esper
open Function (update update_apply update_of_ne update_self)
open Descriptors (kMaxEspers)

variable {k k' k'' : Kernel} {cpu c : Cpu} {now : Nat} {i n x child : Slot}
  {r : Option Slot × Kernel}
  {due : Esper × Nat × Bool} {e : Event} {A : Prop} {o : Option Slot}

/-! ## What leaves `g_running` alone -/

section
variable (k : Kernel)

theorem esperCreate_running : (esperCreate k).2.running = k.running := by
  rw [esperCreate]
  split <;> rfl

theorem esperMakeReady_running (i : Slot) : (esperMakeReady k i).running = k.running := by
  rw [esperMakeReady]
  split <;> rfl

theorem reap_running (me child : Slot) : (reap k me child).running = k.running := by
  rw [reap]
  split <;> rfl

theorem own_running (frame : Ctx) (i : Slot) (o : Own) :
    (o.run k frame i).1.running = k.running := by
  cases o with
  | reap want =>
    rw [Own.run]
    split
    · exact reap_running k i _
    · rfl
  | attach | seize | setoptions | detach | ptraceKill | resume | setregs =>
    rw [Own.run]; split <;> rfl
  | _ => rfl

end

/-! ## What gives a slot back -/

/-- At most the CPU's own slot has been emptied.  If `A`, then nobody has come back. -/
structure Frees (A : Prop) (k k' : Kernel) (cpu : Cpu) : Prop where
  others : ∀ c, c ≠ cpu → k'.running c = k.running c
  own : k'.running cpu = none ∨ k'.running cpu = k.running cpu
  keeps : A → k.KeepsEnded k'

theorem Frees.of_eq (h : k'.running = k.running) (hkeeps : A → k.KeepsEnded k') :
    Frees A k k' cpu :=
  ⟨fun c _ => by rw [h], Or.inr (by rw [h]), hkeeps⟩

theorem Frees.of_ends (h : k.Ends k') : Frees A k k' cpu := .of_eq h.running fun _ => h.keeps

theorem Frees.refl (k : Kernel) (cpu : Cpu) : Frees A k k cpu := .of_ends (.refl k)

theorem Frees.set {e : Esper} (h : A → SameFate (k.espers i) e) : Frees A k (k.set i e) cpu :=
  .of_eq (set_running k i e) fun ha => (Kernel.SameFate.set (h ha)).keepsEnded

theorem Frees.trans (h : Frees A k k' cpu) (h' : Frees A k' k'' cpu) : Frees A k k'' cpu := by
  refine ⟨fun c hc => (h'.others c hc).trans (h.others c hc), ?_,
    fun ha => (h.keeps ha).trans (h'.keeps ha)⟩
  rcases h'.own with hnone | hsame
  · exact Or.inl hnone
  · rw [hsame]
    exact h.own

/-- An Esper is written, and the CPU gives it back. -/
theorem set_clear_frees {e : Esper} (h : A → k.KeepsEnded (k.set i e)) :
    Frees A k (clearRunningSlot (k.set i e) cpu i) cpu := by
  refine (Frees.of_eq (set_running k i e) h).trans ?_
  have hsame := clearRunningSlot_sameFate (k.set i e) cpu i
  rw [clearRunningSlot] at hsame ⊢
  split at hsame
  next hown =>
    rw [if_pos hown]
    refine ⟨fun c hc => ?_, Or.inl ?_, fun _ => hsame.keepsEnded⟩
    · simp [setRunningSlot, update_of_ne hc]
    · simp [setRunningSlot]
  next hown =>
    rw [if_neg hown]
    exact .refl _ cpu

theorem park_frees (h : A → (k.espers i).dead = false) : Frees A k (park k cpu i) cpu :=
  set_clear_frees fun ha => (Kernel.SameFate.set (become_sameFate (h ha) (by simp))).keepsEnded

section
variable (k : Kernel) (cpu : Cpu) (i : Slot)

theorem markFaulted_frees : Frees A k (markFaulted k cpu i) cpu :=
  set_clear_frees fun _ => set_keepsEnded rfl

theorem endWith_frees (code : Int) : Frees A k (endWith k cpu i code) cpu := by
  have hmark : Frees A k (markExited k cpu i code) cpu :=
    set_clear_frees fun _ => set_keepsEnded rfl
  exact hmark.trans (.of_ends (endWith_steady_markExited k cpu i code).ends)

/-- A group of threads ends. -/
theorem endMembers_frees (mm : Option Nat) (code : Int) :
    Frees A k ((List.finRange kMaxEspers).foldl (fun k j => endMember k cpu mm code j) k) cpu := by
  refine List.foldlRecOn _ _ (motive := fun k' => Frees A k k' cpu) (.refl k cpu)
    fun k' hk' j _ => ?_
  rw [endMember]
  split
  · exact hk'
  · exact hk'.trans (endWith_frees k' cpu j code)

end

/-! ## What claims an Esper -/

/-- What a section that picks does: whoever is picked lives and is in the CPU's own slot, and was in
nobody else's; and if `A`, then nobody has come back. -/
structure Picks (A : Prop) (k : Kernel) (cpu : Cpu) (r : Option Slot × Kernel) : Prop where
  others : ∀ c, c ≠ cpu → r.2.running c = k.running c
  picked : ∀ n, r.1 = some n → r.2.running cpu = some n ∧ ∀ c, c ≠ cpu → k.running c ≠ some n
  none : r.1 = none → r.2.running cpu = none ∨ r.2.running cpu = k.running cpu
  alive : ∀ n, r.1 = some n → (r.2.espers n).dead = false
  keeps : A → k.KeepsEnded r.2

theorem Frees.picks (h : Frees A k k' cpu) (h' : Picks A k' cpu r) : Picks A k cpu r := by
  refine ⟨fun c hc => (h'.others c hc).trans (h.others c hc), ?_, ?_, h'.alive,
    fun ha => (h.keeps ha).trans (h'.keeps ha)⟩
  · intro n hn
    obtain ⟨hown, helse⟩ := h'.picked n hn
    refine ⟨hown, fun c hc => ?_⟩
    rw [← h.others c hc]
    exact helse c hc
  · intro hn
    rcases h'.none hn with hnone | hsame
    · exact Or.inl hnone
    · rw [hsame]
      exact h.own

theorem Picks.of_set {e : Esper} (hp : Picks A (k.set i e) cpu r)
    (h : A → SameFate (k.espers i) e) : Picks A k cpu r :=
  (Frees.set h).picks hp

/-- Nobody is picked. -/
theorem Frees.stay (h : Frees A k k' cpu) : Picks A k cpu (none, k') :=
  ⟨h.others, nofun, fun _ => h.own, nofun, h.keeps⟩

/-- What else is written does not matter. -/
theorem Picks.congr (h : Picks A k cpu (o, k')) (hrun : k''.running = k'.running)
    (hsame : k'.SameFate k'') : Picks A k cpu (o, k'') := by
  refine ⟨?_, ?_, ?_, fun n hn => (hsame n).dead.trans (h.alive n hn),
    fun ha => (h.keeps ha).trans hsame.keepsEnded⟩ <;> dsimp only <;> rw [hrun]
  · exact h.others
  · exact h.picked
  · exact h.none

theorem claimable_elsewhere (h : claimable k i = true) (c : Cpu) : k.running c ≠ some i := by
  simp only [claimable, runningSomewhere, decide_eq_true_eq] at h
  exact fun hc => h.2 ⟨c, hc⟩

theorem claim_running (k : Kernel) (cpu c : Cpu) (i : Slot) :
    (claim k cpu i).running c = if c = cpu then some i else k.running c := by
  simp [claim, setRunningSlot, update_apply]

theorem claim_picks (h : ∀ c, c ≠ cpu → k.running c ≠ some i)
    (halive : A → (k.espers i).dead = false) : Picks A k cpu (some i, claim k cpu i) := by
  refine ⟨fun c hc => ?_, ?_, nofun, ?_, fun ha => (claim_sameFate (halive ha)).keepsEnded⟩
  · rw [claim_running, if_neg hc]
  · rintro n ⟨rfl⟩
    exact ⟨by rw [claim_running, if_pos rfl], h⟩
  · rintro n ⟨rfl⟩
    simp [claim, dead, setRunningSlot, become]

section
variable (k : Kernel) (cpu : Cpu) (now : Nat) (i : Slot)

theorem pickAndClaim_picks (after : Option Slot) :
    Picks A k cpu (pickAndClaim k cpu now after) := by
  obtain ⟨k₁, hk₁, hpick⟩ := pickAndClaim_spec k cpu now after
  have hfrees : Frees A k k₁ cpu := by
    rcases hk₁ with rfl | rfl
    · exact .refl _ cpu
    · exact .of_ends (wakeSleepers_steady k now).ends
  rcases hpick with hpick | ⟨j, hj, -, hpick⟩
  · rw [hpick]
    exact hfrees.stay
  · rw [hpick]
    exact hfrees.picks
      (claim_picks (fun c _ => claimable_elsewhere hj c) fun _ => claimable_alive hj)

theorem parkAndPickLocked_picks (h : A → (k.espers i).dead = false) :
    Picks A k cpu (parkAndPickLocked k cpu now i) :=
  (park_frees h).picks (pickAndClaim_picks _ cpu now (some i))

/-- Whoever is parked this way lives afterwards, whatever it was before. -/
theorem parkAndPickLocked_awake : ((parkAndPickLocked k cpu now i).2.espers i).dead = false := by
  have hpark : ((park k cpu i).espers i).dead = false := by
    rw [park, clearRunningSlot_espers, set_self]
    rfl
  exact (pickAndClaim_sameFate _ cpu now (some i) i).dead.trans hpark

theorem parkAndPick_picks : Picks A k cpu (parkAndPick k cpu now i) := by
  rw [parkAndPick]
  split
  next h => exact parkAndPickLocked_picks k cpu now i fun _ => not_dead_of_state h (by simp)
  · exact pickAndClaim_picks k cpu now (some i)

theorem exitAndPick_picks (code : Int) : Picks A k cpu (exitAndPick k cpu now i code) :=
  (endWith_frees k cpu i code).picks (pickAndClaim_picks _ cpu now (some i))

theorem groupExitAndPick_picks (mm : Option Nat) (code : Int) :
    Picks A k cpu (groupExitAndPick k cpu now i mm code) :=
  (endMembers_frees k cpu mm code).picks (pickAndClaim_picks _ cpu now (some i))

theorem faultAndPick_picks : Picks A k cpu (faultAndPick k cpu now i) :=
  ((markFaulted_frees k cpu i).trans (.of_ends (detachTracees_steady _ i).ends)).picks
    (pickAndClaim_picks _ cpu now (some i))

theorem vforkHandoff_picks (parent child : Slot) :
    Picks A k cpu (vforkHandoff k cpu now parent child) := by
  have hready : ∀ k : Kernel, Frees A k (if (k.espers child).state = .waiting then
      k.set child ((k.espers child).become .ready) else k) cpu := by
    intro k
    split
    next h => exact .set fun _ => .of_woken h rfl
    · exact .refl k cpu
  have hpark : ∀ k : Kernel, Frees A k (if (k.espers parent).state = .running then
      park k cpu parent else k) cpu := by
    intro k
    split
    next h => exact park_frees fun _ => not_dead_of_state h (by simp)
    · exact .refl k cpu
  exact ((hready k).trans (hpark _)).picks (pickAndClaim_picks _ cpu now (some parent))

/-- The Esper that is preempted keeps its slot if there is nobody else. -/
theorem preemptAndPick_picks :
    Picks A k cpu (preemptAndPick k cpu now i) ∧
      ((preemptAndPick k cpu now i).1 = none →
        (preemptAndPick k cpu now i).2.running cpu = k.running cpu) := by
  rw [preemptAndPick]
  have hwake : k.Steady (if cpu.val = 0 then wakeSleepers k now else k) := by
    split
    · exact wakeSleepers_steady k now
    · exact .refl k
  generalize (if cpu.val = 0 then wakeSleepers k now else k) = k₁ at hwake
  have hfrees : Frees A k k₁ cpu := .of_ends hwake.ends
  split
  · exact ⟨hfrees.stay, fun _ => by rw [hwake.running]⟩
  split
  · exact ⟨hfrees.stay, fun _ => by rw [hwake.running]⟩
  next n hfind =>
    have hn := List.find?_some hfind
    simp only [decide_eq_true_eq] at hn
    refine ⟨hfrees.picks ?_, nofun⟩
    dsimp only
    split
    next h =>
      refine (Frees.set fun _ => become_sameFate (not_dead_of_state h (by simp)) (by simp)).picks
        (claim_picks (fun c _ => claimable_elsewhere hn.2 c) fun _ => ?_)
      rw [set_of_ne hn.1]
      exact claimable_alive hn.2
    · exact claim_picks (fun c _ => claimable_elsewhere hn.2 c) fun _ => claimable_alive hn.2

end

/-- The Esper that waits with `esper_park_and_pick_keep` has its slot back if there is nobody
else. -/
theorem parkAndPickKeep_picks (now : Nat) (h : k.running cpu = some i)
    (halive : A → (k.espers i).dead = false) : Picks A k cpu (parkAndPickKeep k cpu now i) ∧
      ((parkAndPickKeep k cpu now i).1 = none →
        (parkAndPickKeep k cpu now i).2.running cpu = some i) := by
  have hpicks : Picks A k cpu (parkAndPickLocked k cpu now i) :=
    parkAndPickLocked_picks k cpu now i halive
  have hawake := parkAndPickLocked_awake k cpu now i
  rw [parkAndPickKeep]
  rw [parkAndPickLocked] at hpicks hawake
  split
  next n k₁ heq =>
    rw [heq] at hpicks
    exact ⟨hpicks, nofun⟩
  next k₁ heq =>
    rw [heq] at hpicks hawake
    refine ⟨⟨fun c hc => ?_, nofun, fun _ => Or.inr ?_, nofun, fun ha => ?_⟩, fun _ => ?_⟩
    · rw [claim_running, if_neg hc]
      exact hpicks.others c hc
    · rw [claim_running, if_pos rfl, h]
    · exact (hpicks.keeps ha).trans (claim_sameFate hawake).keepsEnded
    · rw [claim_running, if_pos rfl]

section
variable (k : Kernel) (cpu : Cpu) (now : Nat) (i : Slot) (frame : Ctx)

/-- A stop is due only for what the Esper is; its state is not written. -/
theorem due_state {e : Esper} {s : Stop} (h : s.due e = some due) : due.1.state = e.state := by
  cases s with
  | entry | exit | pending | step =>
    rw [Stop.due] at h
    split at h
    · obtain rfl := Option.some.inj h
      rfl
    · cases h

theorem mentalOutStop_picks (h : A → (k.espers i).dead = false)
    (hdue : due.1.state = (k.espers i).state) :
    Picks A k cpu (mentalOutStop k cpu now i frame due) := by
  rw [mentalOutStop]
  generalize (if due.2.2 = true then { frame with elr := frame.elr - 4 } else frame) = ctx
  have hset : A → (stopped due.1 due.2.1 ctx).dead = false := fun ha => by
    rw [dead, show (stopped due.1 due.2.1 ctx).state = (k.espers i).state from hdue]
    exact h ha
  have htell := tellTracer_steady (k.set i (stopped due.1 due.2.1 ctx)) i due.2.1
  refine (((Frees.of_ends htell.ends).picks
    (parkAndPickLocked_picks _ cpu now i fun ha => ?_)).of_set
    fun ha => .of_alive (h ha) (hset ha))
  rw [(htell.espers i).dead, set_self]
  exact hset ha

theorem parkFor_picks (w : Wait) (h : A → w.looks = false → (k.espers i).dead = false) :
    Picks A k cpu (parkFor k cpu now i frame w) := by
  have hsame : SameFate (k.espers i) (w.record (saveCtx (k.espers i) (w.saved frame))) := by
    cases w <;> exact .of_eq rfl rfl
  rw [parkFor]
  split
  · exact (parkAndPick_picks _ cpu now i).of_set fun _ => hsame
  next hlooks =>
    refine (parkAndPickLocked_picks _ cpu now i fun ha => ?_).of_set fun _ => hsame
    rw [set_self]
    exact hsame.dead.trans (h ha (Bool.eq_false_iff.mpr hlooks))

/-- The Esper gives the CPU away through a section that makes it wait without looking at its
state. -/
def Leave.blind (k : Kernel) (i : Slot) : Leave → Prop
  | .park w => w.looks = false ∧ w.parks k i = true
  | .stop s => (s.due (k.espers i)).isSome = true
  | .groupExit _ | .fault => False

theorem leave_picks (l : Leave) (h : A → l.blind k i → (k.espers i).dead = false)
    (hr : l.run k cpu now i frame = some r) : Picks A k cpu r := by
  cases l with
  | park w =>
    rw [Leave.run] at hr
    split at hr
    next hparks =>
      rw [← Option.some.inj hr]
      exact parkFor_picks k cpu now i frame w fun ha hlooks => h ha ⟨hlooks, hparks⟩
    · cases hr
  | stop s =>
    rw [Leave.run, Option.map_eq_some_iff] at hr
    obtain ⟨due, hdue, rfl⟩ := hr
    exact mentalOutStop_picks k cpu now i frame (fun ha => h ha (by rw [Leave.blind, hdue]; rfl))
      (due_state hdue)
  | groupExit code =>
    rw [Leave.run] at hr
    split at hr
    · rw [← Option.some.inj hr]
      exact groupExitAndPick_picks k cpu now i _ code
    · cases hr
  | fault =>
    rw [← Option.some.inj hr, fatalFault]
    split
    · exact groupExitAndPick_picks k cpu now i _ _
    · exact faultAndPick_picks k cpu now i

end

/-! ## The CPUs -/

/-- No Esper is in the slots of two CPUs. -/
def Once (k : Kernel) : Prop := ∀ c c' i, k.running c = some i → k.running c' = some i → c = c'

/-- What the slot of a CPU holds in each mode, and whose registers the CPU has. -/
def ModeHeld (running live : Option Slot) : Mode → Prop
  | .idle => True
  | .claimed n => running = some n
  | .user | .switched _ _ => ∃ n, live = some n ∧ running = some n
  | .kernel i | .cloning i _ _ _ | .exiting i _ | .killedSelf i => live = some i ∧ running = some i
  | .stranded i _ => live = some i

/-- The Esper whose instructions come next, if the CPU does not come into the kernel before. -/
def Mode.resumes (live : Option Slot) (x : Slot) : Mode → Prop
  | .claimed n => n = x
  | .user | .switched _ _ => live = some x
  | .idle | .kernel _ | .cloning _ _ _ _ | .stranded _ _ | .exiting _ _ | .killedSelf _ => False

namespace Machine

/-- The mode of the CPU fits its slot and its registers. -/
def OwnHeld (m : Machine) (c : Cpu) : Prop := ModeHeld (m.kernel.running c) (m.live c) (m.mode c)

structure Held (m : Machine) : Prop where
  once : Once m.kernel
  modes : ∀ c, ModeHeld (m.kernel.running c) (m.live c) (m.mode c)

variable {m m' : Machine} {mode : Mode} {a : Prop} {R : Slot → Prop}

def Resumes (m : Machine) (c : Cpu) (x : Slot) : Prop := (m.mode c).resumes (m.live c) x

/-- The slot was taken for a new pid. -/
def Taken (m m' : Machine) (x : Slot) : Prop :=
  m'.kernel.nextPid = m.kernel.nextPid + 1 ∧ (m'.kernel.espers x).pid = m.kernel.nextPid

/-- Whoever has ended has not come back. -/
def StaysDead (m m' : Machine) : Prop :=
  ∀ x, (m.kernel.espers x).dead = true → (m'.kernel.espers x).dead = true ∨ Taken m m' x

theorem Held.resumes_running (h : Held m) (hx : m.Resumes c x) : m.kernel.running c = some x := by
  have hmode := h.modes c
  rw [Resumes] at hx
  cases hm : m.mode c with
  | idle | stranded _ _ | killedSelf _ | kernel _ | cloning _ _ _ _ | exiting _ _ =>
    rw [hm] at hx
    exact absurd hx id
  | claimed n =>
    rw [hm] at hx hmode
    exact hmode.trans (congrArg some hx)
  | user | switched _ _ =>
    rw [hm] at hx hmode
    obtain ⟨n, hlive, hrunning⟩ := hmode
    exact hrunning.trans (hlive.symm.trans hx)

/-- A step of one CPU changes nothing of the others, and leaves its own mode in order.  What it has
in its slot afterwards it had before, or nobody had; whom it resumes lives or is one of `R`; and if
`a`, then nobody comes back. -/
structure Moves (a : Prop) (R : Slot → Prop) (m : Machine) (c : Cpu) (m' : Machine) : Prop where
  others : ∀ c', c' ≠ c → m'.kernel.running c' = m.kernel.running c' ∧ m'.mode c' = m.mode c' ∧
    m'.live c' = m.live c'
  own : m'.OwnHeld c
  fresh : ∀ i, m'.kernel.running c = some i →
    m.kernel.running c = some i ∨ ∀ c', c' ≠ c → m.kernel.running c' ≠ some i
  resumes : ∀ x, m'.Resumes c x → (m'.kernel.espers x).dead = false ∨ R x
  stays : a → StaysDead m m'

theorem Held.moves (h : Held m) (hm : Moves a R m c m') : Held m' := by
  have halone : ∀ c' i, c' ≠ c → m'.kernel.running c = some i → m'.kernel.running c' ≠ some i := by
    intro c' i hc' hi hi'
    rw [(hm.others c' hc').1] at hi'
    rcases hm.fresh i hi with hold | hnone
    · exact hc' (h.once c' c i hi' hold)
    · exact hnone c' hc' hi'
  refine ⟨fun c₁ c₂ i h₁ h₂ => ?_, fun c' => ?_⟩
  · by_cases hc₁ : c₁ = c
    · by_cases hc₂ : c₂ = c
      · rw [hc₁, hc₂]
      · rw [hc₁] at h₁
        exact absurd h₂ (halone c₂ i hc₂ h₁)
    · by_cases hc₂ : c₂ = c
      · rw [hc₂] at h₂
        exact absurd h₁ (halone c₁ i hc₁ h₂)
      · rw [(hm.others c₁ hc₁).1] at h₁
        rw [(hm.others c₂ hc₂).1] at h₂
        exact h.once c₁ c₂ i h₁ h₂
  · by_cases hc' : c' = c
    · rw [hc']
      exact hm.own
    · obtain ⟨hrun, hmode, hlive⟩ := hm.others c' hc'
      rw [hrun, hmode, hlive]
      exact h.modes c'

theorem Moves.setFrame (h : Moves a R m c m') (frame : Ctx) : Moves a R m c (m'.setFrame c frame) :=
  ⟨h.others, h.own, h.fresh, h.resumes, h.stays⟩

theorem Moves.refl (h : m.OwnHeld c) (hR : ∀ x, m.Resumes c x → R x) : Moves a R m c m :=
  ⟨fun _ _ => ⟨rfl, rfl, rfl⟩, h, fun _ hi => Or.inl hi, fun x hx => Or.inr (hR x hx),
    fun _ _ hx => Or.inl hx⟩

/-- A section that takes no slot of the table. -/
theorem Moves.of_picks (hp : Picks a m.kernel c (o, m'.kernel))
    (hmode : ∀ c', c' ≠ c → m'.mode c' = m.mode c' ∧ m'.live c' = m.live c') (hown : m'.OwnHeld c)
    (hR : ∀ x, m'.Resumes c x → (m'.kernel.espers x).dead = false ∨ R x) : Moves a R m c m' := by
  refine ⟨fun c' hc' => ⟨hp.others c' hc', hmode c' hc'⟩, hown, fun i hi => ?_, hR,
    fun h x hx => Or.inl (hp.keeps h x hx)⟩
  cases o with
  | none =>
    rcases hp.none rfl with hnone | hsame
    · cases hi.symm.trans hnone
    · exact Or.inl (hsame.symm.trans hi)
  | some n =>
    obtain ⟨hn, helse⟩ := hp.picked n rfl
    obtain rfl := Option.some.inj (hn.symm.trans hi)
    exact Or.inr helse

/-- The CPU keeps its registers, and its slot is as the new mode asks. -/
theorem Moves.move_picks (hp : Picks a m.kernel c r)
    (hown : ModeHeld (r.2.running c) (m.live c) mode)
    (hR : ∀ x, mode.resumes (m.live c) x → (r.2.espers x).dead = false ∨ R x) :
    Moves a R m c (m.move c r.2 mode) := by
  have hself : (m.move c r.2 mode).mode c = mode := update_self _ _ _
  refine .of_picks (o := r.1) hp (fun c' hc' => ⟨update_of_ne hc' _ _, rfl⟩) ?_ fun x hx => hR x ?_
  · rw [OwnHeld, hself]
    exact hown
  · rwa [Resumes, hself] at hx

/-- It keeps its slot, too. -/
theorem Moves.move (hrun : k.running = m.kernel.running) (hkeeps : a → m.kernel.KeepsEnded k)
    (hown : ModeHeld (m.kernel.running c) (m.live c) mode)
    (hR : ∀ x, mode.resumes (m.live c) x → R x) : Moves a R m c (m.move c k mode) :=
  .move_picks (Frees.of_eq hrun hkeeps).stay (by rw [hrun]; exact hown) fun x hx => Or.inr (hR x hx)

theorem Moves.leaveUser (hp : Picks a m.kernel c (none, k)) : Moves a R m c (m.leaveUser c k) := by
  have hself : (m.leaveUser c k).mode c = .idle := update_self _ _ _
  refine .of_picks (hp.congr rfl (.refl k))
    (fun c' hc' => ⟨update_of_ne hc' _ _, update_of_ne hc' _ _⟩) ?_
    fun x hx => ?_
  · rw [OwnHeld, hself]
    trivial
  · rw [Resumes, hself] at hx
    exact absurd hx id

/-- `load_ctx` ends nobody and brings nobody back. -/
theorem load_sameFate (m : Machine) (c : Cpu) (k : Kernel) (n : Slot) (mode : Mode) :
    k.SameFate (m.load c k n mode).kernel := by
  refine SameFate.set (.of_eq ?_ ?_)
  · rw [deliverPendingStatus]
    split <;> rfl
  · rw [deliverPendingStatus]
    split <;> rfl

theorem Moves.load (hp : Picks a m.kernel c (o, k)) (hrun : k.running c = some n)
    (hR : (k.espers n).dead = false ∨ R n)
    (hmode : mode = .user ∨ ∃ old hooks, mode = .switched old hooks) :
    Moves a R m c (m.load c k n mode) := by
  have hload := load_sameFate m c k n mode
  have hself : (m.load c k n mode).mode c = mode := update_self _ _ _
  have hlive : (m.load c k n mode).live c = some n := update_self _ _ _
  refine .of_picks (hp.congr rfl hload) (fun c' hc' => ⟨update_of_ne hc' _ _, update_of_ne hc' _ _⟩)
    ?_
    fun x hx => ?_
  · rw [OwnHeld, hself, hlive]
    rcases hmode with rfl | ⟨old, hooks, rfl⟩ <;> exact ⟨n, rfl, hrun⟩
  · rw [Resumes, hself, hlive] at hx
    have hxn : some n = some x := by
      rcases hmode with rfl | ⟨old, hooks, rfl⟩ <;> exact hx
    obtain rfl := Option.some.inj hxn
    exact hR.imp_left (hload n).dead.trans

theorem Moves.go (hp : Picks a m.kernel c r) (old : Slot) (hooks : Bool) :
    Moves a R m c (m.go c (.switched old hooks) r) := by
  obtain ⟨_ | n, k⟩ := r
  · exact .leaveUser hp
  · exact .load hp (hp.picked n rfl).1 (Or.inl (hp.alive n rfl)) (Or.inr ⟨old, hooks, rfl⟩)

/-- A slot is taken. -/
theorem Moves.create (hk : esperCreate m.kernel = (some n, k)) (hrun : k'.running = k.running)
    (hsame : k.SameFate k') (hpid : k'.nextPid = k.nextPid ∧ (k'.espers n).pid = (k.espers n).pid)
    (hown : ModeHeld (m.kernel.running c) (m.live c) mode)
    (hR : ∀ x, mode.resumes (m.live c) x → R x) : Moves a R m c (m.move c k' mode) := by
  have hcreate := esperCreate_running m.kernel
  rw [hk] at hcreate
  obtain ⟨-, hnext, hnew, hothers⟩ := esperCreate_spec hk
  -- as for the slots nothing but the mode changes
  have hmove : Moves False R m c (m.move c k' mode) := .move (hrun.trans hcreate) nofun hown hR
  refine { hmove with stays := fun _ x hx => ?_ }
  by_cases hxn : x = n
  · refine Or.inr ⟨hpid.1.trans hnext, ?_⟩
    rw [hxn]
    exact hpid.2.trans hnew
  · rw [← hothers x hxn] at hx
    exact Or.inl ((hsame x).dead.trans hx)

/-! ## Every step -/

/-- A CPU that takes a parent back after a hand-off that found nobody finds it on no other CPU. -/
def TakesBackOwn (m : Machine) (c : Cpu) (e : Event) : Prop :=
  e = .unstrand → ∀ i child, m.mode c = .stranded i child →
    ∀ c', c' ≠ c → m.kernel.running c' ≠ some i

/-- The step gives the Esper a state in which it lives without looking at the one it has:
`esper_park_and_pick_locked` for a blocking call or a ptrace stop, `esper_park_and_pick_keep`, and
`esper_set_running` after a failed hand-off. -/
def Blind (m : Machine) (c : Cpu) : Event → Slot → Prop
  | .leave l _, x => m.mode c = .kernel x ∧ l.blind m.kernel x
  | .waitKeep _ _, x => m.mode c = .kernel x
  | .unstrand, x => ∃ child, m.mode c = .stranded x child
  | .ret _, x => m.mode c = .switched x true ∧ (hookDue (m.kernel.espers x)).isSome = true
  | _, _ => False

/-- Nobody that has ended is written blindly. -/
def Looks (m : Machine) (c : Cpu) (e : Event) : Prop :=
  ∀ x, m.Blind c e x → (m.kernel.espers x).dead = false

/-- The step takes its CPU from EL0 into the kernel. -/
def entersKernel (m : Machine) (c : Cpu) : Event → Bool
  | .trap | .tick _ => m.mode c = .user
  | _ => false

/-- The trap ends with the Esper it began with. -/
def ReturnsTo (m : Machine) (c : Cpu) (e : Event) (x : Slot) : Prop :=
  (∃ now, e = .ret now) ∧ m.mode c = .kernel x

/-- The Esper was about to go on at EL0 before the step, or the step returns to it. -/
def GoesOn (m : Machine) (c : Cpu) (e : Event) (x : Slot) : Prop :=
  (m.Resumes c x ∧ m.entersKernel c e = false) ∨ m.ReturnsTo c e x

theorem hookDue_state {e : Esper} (h : hookDue e = some due) : due.1.state = e.state := by
  rw [hookDue] at h
  split at h
  next d hd =>
    cases h
    exact due_state hd
  · exact due_state h

theorem quiet_moves (h : m.OwnHeld c) (q : Quiet) (hR : ∀ x, m.Resumes c x → R x) :
    Moves a R m c (m.move c (q.run m.kernel) (m.mode c)) :=
  .move (quiet_ends _ q).running (fun _ => (quiet_ends _ q).keeps) h hR

section
variable (h : m.OwnHeld c) (hR : ∀ x, m.Resumes c x → R x)
include h hR

theorem stepIdle_moves (e : Event) : Moves a R m c (m.stepIdle c e) := by
  rw [stepIdle.eq_def]
  split
  next abi mm ctx =>
    split
    next n k hk =>
      have hload : k.SameFate (k.set n (loadImage (k.espers n) abi mm ctx)) := .set (.of_eq rfl rfl)
      have hready : ∀ k : Kernel, k.SameFate (esperMakeReady k n) ∧
          (esperMakeReady k n).nextPid = k.nextPid ∧
          ((esperMakeReady k n).espers n).pid = (k.espers n).pid := by
        intro k
        rw [esperMakeReady]
        split
        next hw => exact ⟨.set (.of_woken hw rfl), rfl, by simp [become]⟩
        · exact ⟨.refl k, rfl, rfl⟩
      obtain ⟨hfate, hnext, hpid⟩ := hready (k.set n (loadImage (k.espers n) abi mm ctx))
      refine .create hk (esperMakeReady_running _ _) (hload.trans hfate)
        ⟨hnext, hpid.trans ?_⟩ trivial
        fun x hx => absurd hx id
      simp [loadImage]
    · exact .refl h hR
  next now =>
    have hp := pickAndClaim_picks (A := a) m.kernel c now
      (if c.val = 0 then none else m.kernel.running c)
    split
    next n k hk =>
      rw [hk] at hp
      refine .move_picks hp (hp.picked n rfl).1 fun x hx => Or.inl ?_
      obtain rfl : n = x := hx
      exact hp.alive n rfl
    next k hk =>
      rw [hk] at hp
      exact .move_picks hp trivial fun x hx => absurd hx id
  · exact .refl h hR

theorem stepClaimed_moves (hm : m.mode c = .claimed n) (e : Event) :
    Moves a R m c (m.stepClaimed c n e) := by
  have hown : m.kernel.running c = some n := by rwa [OwnHeld, hm] at h
  have hn : m.Resumes c n := by rw [Resumes, hm]; rfl
  rw [stepClaimed.eq_def]
  split
  · exact .load (Frees.refl _ c).stay hown (Or.inr (hR n hn)) (Or.inl rfl)
  · exact .leaveUser (markFaulted_frees m.kernel c n).stay
  · exact .refl h hR

end

section
variable (hown : m.live c = some i ∧ m.kernel.running c = some i)
include hown

theorem stepAside_moves (now : Nat) (frame : Ctx) : Moves a R m c (m.stepAside c now i frame) := by
  obtain ⟨hp, hstay⟩ :=
    preemptAndPick_picks (A := a) (m.kernel.set i (saveCtx (m.kernel.espers i) frame)) c now i
  replace hp := hp.of_set fun _ => .of_eq rfl rfl
  rw [stepAside]
  split
  next n k hk =>
    rw [hk] at hp
    exact .go hp i false
  next k hk =>
    rw [hk] at hp hstay
    refine Moves.setFrame ?_ frame
    exact .move_picks hp ⟨hown.1, (hstay rfl).trans hown.2⟩ fun x hx => absurd hx id

theorem waitKeep_moves (statusPtr : UInt64) (now : Nat)
    (halive : a → (m.kernel.espers i).dead = false) :
    Moves a R m c (m.waitKeep c i statusPtr now) := by
  rw [waitKeep]
  obtain ⟨hp, hback⟩ := parkAndPickKeep_picks (A := a) (k := m.kernel.set i
    { saveCtx (m.kernel.espers i) (m.frame c) with waitStatusPtr := statusPtr }) now hown.2
      fun h => by
      rw [set_self]
      exact halive h
  replace hp := hp.of_set fun _ => .of_eq rfl rfl
  split
  next n k hk =>
    rw [hk] at hp
    exact .go hp i false
  next k hk =>
    rw [hk] at hp hback
    refine Moves.setFrame ?_ _
    exact .move_picks hp ⟨hown.1, hback rfl⟩ fun x hx => absurd hx id

theorem publishChild_moves (child : Slot) (vm vfork : Bool) (mm : Option Nat)
    (sp tls : Option UInt64)
    (now : Nat) : Moves a R m c (m.publishChild c i child vm vfork mm sp tls now) := by
  rw [publishChild]
  generalize hchild' : cloneInto (m.kernel.espers child) (m.kernel.espers i) i vm mm
    (childCtx (m.frame c) sp tls) = child'
  have hsame : SameFate (m.kernel.espers child) child' := by
    rw [← hchild']
    exact .of_eq rfl rfl
  split
  · have hwait : SameFate ((m.kernel.set child child').espers i)
        (vforkWait ((m.kernel.set child child').espers i) (m.frame c) child'.pid) := .of_eq rfl rfl
    have hp := ((vforkHandoff_picks (A := a) _ c now i child).of_set fun _ => hwait).of_set
      fun _ => hsame
    split
    next n k hk => exact .go (hk ▸ hp) i false
    next k hk =>
      rw [hk] at hp
      exact .move_picks hp hown.1 fun x hx => absurd hx id
  · refine Moves.setFrame ?_ _
    refine .move (esperMakeReady_running _ _) (fun _ => ((SameFate.set hsame).trans ?_).keepsEnded)
      hown
      fun x hx => absurd hx id
    rw [esperMakeReady]
    split
    next hw => exact .set (.of_woken hw rfl)
    · exact .refl _

end

theorem stepUser_moves (h : m.OwnHeld c) (hm : m.mode c = .user) (e : Event)
    (hR : ∀ x, m.GoesOn c e x → R x) : Moves a R m c (m.stepUser c e) := by
  obtain ⟨n, hown⟩ :
    ∃ n, m.live c = some n ∧ m.kernel.running c = some n := by rwa [OwnHeld, hm] at h
  rw [stepUser.eq_def, hown.2]
  split
  · exact (Moves.refl h fun x hx => hR x (Or.inl ⟨hx, rfl⟩)).setFrame _
  · exact .move rfl (fun _ => (Kernel.SameFate.refl _).keepsEnded) hown fun x hx => absurd hx id
  · exact stepAside_moves hown _ _
  next htrap htick =>
    refine .refl h fun x hx => hR x (Or.inl ⟨hx, ?_⟩)
    cases e with
    | trap => exact absurd rfl htrap
    | tick now => exact absurd rfl (htick now)
    | _ => rfl

section
variable (h : m.OwnHeld c)
include h

theorem stepKernel_moves (hm : m.mode c = .kernel i) (hlooks : a → m.Looks c e)
    (hR : ∀ x, m.ReturnsTo c e x → R x) : Moves a R m c (m.stepKernel c i e) := by
  have hown : m.live c = some i ∧ m.kernel.running c = some i := by rwa [OwnHeld, hm] at h
  have hstay : ∀ {m' : Machine}, m'.mode c = .kernel i → ∀ x, m'.Resumes c x → R x := by
    intro m' hm' x hx
    rw [Resumes, hm'] at hx
    exact absurd hx id
  rw [stepKernel.eq_def]
  split
  · refine Moves.setFrame ?_ _
    exact .move (own_running _ _ _ _) (fun _ => (own_sameFate _ _ _ _).keepsEnded) hown
      fun x hx => absurd hx id
  · split
    next r hr => exact .go (leave_picks _ _ _ _ _ _
      (fun ha hblind => hlooks ha i ⟨hm, hblind⟩) hr) i _
    · exact .refl h (hstay hm)
  · exact stepAside_moves hown _ _
  · exact waitKeep_moves hown _ _ fun ha => hlooks ha i hm
  · exact .move rfl (fun _ => (ipcWake_steady _ _ _).ends.keeps) hown
      fun x hx => absurd hx id
  next sig =>
    split
    · exact .move (fortis931Kill_ends m.kernel
        i sig).running (fun _ => (fortis931Kill_ends _ _ _).keeps) hown
        fun x hx => absurd hx id
    · exact .refl h (hstay hm)
  · split
    next child k hk => exact .create hk rfl (.refl k) ⟨rfl, rfl⟩ hown fun x hx => absurd hx id
    · exact (Moves.refl h (hstay hm)).setFrame _
  next now =>
    refine .move rfl (fun _ => (Kernel.SameFate.refl _).keepsEnded) ⟨i, hown⟩ fun x hx => hR x ?_
    obtain rfl : i = x := Option.some.inj (hown.1.symm.trans hx)
    exact ⟨⟨now, rfl⟩, hm⟩
  · exact .refl h (hstay hm)

theorem stepCloning_moves {vm vfork : Bool} (hm : m.mode c = .cloning i child vm vfork) :
    Moves a R m c (m.stepCloning c i child vm vfork e) := by
  have hown : m.live c = some i ∧ m.kernel.running c = some i := by rwa [OwnHeld, hm] at h
  rw [stepCloning.eq_def]
  split
  · refine Moves.setFrame ?_ _
    exact .move rfl (fun _ => set_keepsEnded rfl) hown fun x hx => absurd hx id
  · exact publishChild_moves hown child vm vfork _ _ _ _
  · refine .refl h fun x hx => ?_
    rw [Resumes, hm] at hx
    exact absurd hx id

/-- If nobody else has the parent, it can be taken back. -/
theorem unstrand_moves (hm : m.mode c = .stranded i child)
    (hback : ∀ c', c' ≠ c → m.kernel.running c' ≠ some i)
    (halive : a → (m.kernel.espers i).dead = false) : Moves a R m c (m.unstrand c i child) := by
  have hlive : m.live c = some i := by rwa [OwnHeld, hm] at h
  have hend : SameFate (m.kernel.espers i) (endVforkWait (m.kernel.espers i)) := .of_eq rfl rfl
  have hp : Picks a m.kernel c
      (some i, setRunning (m.kernel.set i (endVforkWait (m.kernel.espers i))) c i) := by
    refine (claim_picks (k := m.kernel.set i _) hback fun ha => ?_).of_set fun _ => hend
    rw [set_self]
    exact hend.dead.trans (halive ha)
  refine Moves.setFrame ?_ _
  exact .move_picks hp ⟨hlive, (hp.picked i rfl).1⟩ fun x hx => absurd hx id

theorem endTrap_moves {old : Slot} {hooks : Bool} (hm : m.mode c = .switched old hooks)
    (hlooks : a → m.Looks c (.ret now)) (hR : ∀ x, m.Resumes c x → R x) :
    Moves a R m c (m.endTrap c old hooks now) := by
  rw [endTrap]
  split
  next due hdue =>
    cases hooks with
    | false => cases hdue
    | true =>
      rw [if_pos rfl] at hdue
      exact .go (mentalOutStop_picks _ c now _ _ (fun ha => hlooks ha old ⟨hm, by rw [hdue]; rfl⟩)
        (hookDue_state hdue)) old false
  · refine .move rfl (fun _ => (Kernel.SameFate.refl _).keepsEnded) ?_ fun x hx => hR x ?_
    · rwa [OwnHeld, hm] at h
    · rw [Resumes, hm]
      exact hx

/-- What every step does. -/
theorem step_moves (hback : m.TakesBackOwn c e) (hlooks : a → m.Looks c e) :
    Moves a (m.GoesOn c e) m c (m.step c e) := by
  -- outside of EL0 no event enters the kernel
  have hR : m.mode c ≠ .user → ∀ x, m.Resumes c x → m.GoesOn c e x := by
    refine fun hm x hx => Or.inl ⟨hx, ?_⟩
    cases e with
    | trap | tick _ => exact decide_eq_false hm
    | _ => rfl
  rw [step.eq_def]
  split
  · exact quiet_moves h _ fun x hx => Or.inl ⟨hx, rfl⟩
  split
  next hm => exact stepIdle_moves h (hR (by simp [hm])) e
  next hm => exact stepClaimed_moves h (hR (by simp [hm])) hm e
  next hm => exact stepUser_moves h hm e fun _ hx => hx
  next hm => exact stepKernel_moves h hm hlooks fun _ hx => Or.inr hx
  next hm => exact stepCloning_moves h hm
  next i child hm =>
    split
    · exact unstrand_moves h hm (hback rfl _ _ hm) fun ha => hlooks ha i ⟨child, hm⟩
    · exact .refl h (hR (by simp [hm]))
  next hm =>
    split
    · exact .go (exitAndPick_picks _ _ _ _ _) _ _
    · exact .refl h (hR (by simp [hm]))
  next hm =>
    split
    · exact .go (pickAndClaim_picks _ _ _ _) _ _
    · exact .refl h (hR (by simp [hm]))
  next hm =>
    split
    · exact endTrap_moves h hm hlooks (hR (by simp [hm]))
    · exact .refl h (hR (by simp [hm]))

end

end Machine

end IndexOS.Espers
