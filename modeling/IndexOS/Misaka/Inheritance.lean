import IndexOS.Misaka.Waiters

/-!
# Priority inheritance

Who has to wait for a mutex lends its level to the holder, once, when it is put into the queue. 
That is not enough.  The holder may itself be waiting for another mutex, whose holder gets nothing;
a holder of two mutexes loses everything when it unlocks the first; and who is handed a mutex does
not get the levels of those that are still in the queue.  `Mutexes.Careful` excludes just these, and
then levels are inherited. That a Sister without a mutex has its own level is always so.

* `Mutexes`, `Action`, `Mutexes.step` — any mutexes over the scheduler, each with the sections of
  `Locks`;
* `Mutexes.Inherits` — the property;
* `Mutexes.Careful` — the calls that keep it;
* `inherits_iff` — the main theorem; `inheritance_lost` — the three ways to lose it.
-/

set_option autoImplicit false

namespace IndexOS.Misaka

open Function (update update_apply update_eq_self update_of_ne update_self)
open Traces (Always EachStep always_iff_eachStep run)

/-! ## Any number of mutexes -/

/-- The scheduler, with a mutex for each `m : μ`. -/
structure Mutexes (μ : Type) where
  net : Network := init
  locks : μ → Judgement := fun _ => {}

/-- What a CPU does: a section of the scheduler, or a call. -/
inductive Action (μ : Type) where
  | sched (e : Event)
  | lock (m : μ)
  | unlock (m : μ)

namespace Mutexes

variable {μ : Type}

def sync (c : Mutexes μ) (m : μ) : Sync := { net := c.net, lock := c.locks m }

/-- The level of a Sister. -/
def level (c : Mutexes μ) (i : Id) : Nat := (c.net.sisters i).level

def baseLevel (c : Mutexes μ) (i : Id) : Nat := (c.net.sisters i).baseLevel

def owner (c : Mutexes μ) (m : μ) : Option Id := (c.locks m).owner

def waiters (c : Mutexes μ) (m : μ) : List Id := (c.locks m).waiters.contents

/-- Who holds a mutex has at least the level of everybody who waits for it, and who holds none has
its own. -/
structure Inherits (c : Mutexes μ) : Prop where
  lent : ∀ m o, c.owner m = some o → ∀ i ∈ c.waiters m, c.level i ≤ c.level o
  own : ∀ i, (∀ m, c.owner m ≠ some i) → c.level i = c.baseLevel i

/-- The level after `misaka_network_level_restore` of `i`. -/
def restored (c : Mutexes μ) (i j : Id) : Nat := if j = i then c.baseLevel j else c.level j

variable [DecidableEq μ]

def put (c : Mutexes μ) (m : μ) (s : Sync) : Mutexes μ :=
    { net := s.net, locks := update c.locks m s.lock }

def step (c : Mutexes μ) (e : Cpu × Action μ) : Mutexes μ :=
  match e.2 with
  | .sched ev => if ev.whole then { c with net := c.net.step (e.1, ev) } else c
  | .lock m => if (c.sync m).calls e.1 then c.put m ((c.sync m).judgementLock e.1) else c
  | .unlock m => if (c.sync m).calls e.1 then c.put m ((c.sync m).judgementUnlock e.1) else c

/-- The calls after which the levels are still inherited. -/
def Careful (c : Mutexes μ) (e : Cpu × Action μ) : Prop :=
  let i := c.net.current e.1
  match e.2 with
  | .sched _ => True
  | .lock m =>
    -- the holder does not wait itself for somebody of a lower level
    (c.sync m).calls e.1 = true → ∀ o, c.owner m = some o →
      ∀ m' p, o ∈ c.waiters m' → c.owner m' = some p → p ≠ o → c.level i ≤ c.level p
  | .unlock m =>
    (c.sync m).calls e.1 = true → c.owner m = some i →
      -- nobody of a higher level waits for another mutex of the caller
      (∀ m', m' ≠ m → c.owner m' = some i → ∀ j ∈ c.waiters m', c.restored i j ≤ c.baseLevel i) ∧
      -- nor for this one, when it has been handed on
      ∀ next rest, c.waiters m = next :: rest → ∀ j ∈ rest, c.restored i j ≤ c.restored i next

end Mutexes

/-! ## The scheduler leaves levels alone -/

namespace Network

variable {m m' m'' : Network} {cpu : Cpu} {i : Id} {s : Sister}

/-- What every section of the scheduler does to levels: nothing, except that a new Sister has its
own. -/
structure Steady (m m' : Network) : Prop where
  level : ∀ i, (m.sisters i).state ≠ .free →
    (m'.sisters i).level = (m.sisters i).level ∧ (m'.sisters i).baseLevel = (m.sisters i).baseLevel
  own : ∀ i, (m.sisters i).level = (m.sisters i).baseLevel → (m'.sisters i).level =
    (m'.sisters i).baseLevel
  used : ∀ i, (m.sisters i).state ≠ .free → (m'.sisters i).state ≠ .free
  current : (∀ c, (m.sisters (m.current c)).state ≠ .free) → ∀ c,
    (m'.sisters (m'.current c)).state ≠ .free

theorem Steady.refl (m : Network) : Steady m m :=
    ⟨fun _ _ => ⟨rfl, rfl⟩, fun _ h => h, fun _ h => h, fun h => h⟩

theorem Steady.trans (h : Steady m m') (h' : Steady m' m'') : Steady m m'' := by
  obtain ⟨hlevel, hown, hused, hcurrent⟩ := h
  obtain ⟨hlevel', hown', hused', hcurrent'⟩ := h'
  constructor
  all_goals grind

/-- A Sister gets another state. -/
theorem Steady.set (hlevel : s.level = (m.sisters i).level)
    (hbase : s.baseLevel = (m.sisters i).baseLevel) (hstate : s.state ≠ .free) :
    Steady m (m.set i s) := by
  constructor
  all_goals simp only [Network.set]
  all_goals grind [update_apply]

/-- A new Sister. -/
theorem Steady.fresh (hfree : (m.sisters i).state = .free) (hlevel : s.level = s.baseLevel)
    (hstate : s.state ≠ .free) : Steady m (m.set i s) := by
  constructor
  all_goals simp only [Network.set]
  all_goals grind [update_apply]

theorem pickNext_cases (m : Network) (start : Id) :
    m.pickNext start = start ∨ (m.sisters (m.pickNext start)).state = .ready := by
  rw [pickNext]
  split
  · exact .inl rfl
  · cases hfind : (scanFrom start).find? fun i =>
        (m.sisters i).state = .ready ∧ ((m.sisters i).level : Int) = m.bestLevel with
    | none => exact .inl rfl
    | some j =>
      have hj := List.find?_some hfind
      exact .inr (of_decide_eq_true hj).1

theorem Steady.switchAway (m : Network) (cpu : Cpu) : Steady m (m.switchAway cpu) := by
  have hpick := m.pickNext_cases (m.current cpu)
  rw [Network.switchAway, switchTo_eq]
  generalize m.pickNext (m.current cpu) = n at hpick
  constructor
  all_goals simp only [Network.set]
  all_goals grind [update_apply]

/-- The running Sister gets another state, and another one runs. -/
theorem Steady.rest (hlevel : s.level = (m.mine cpu).level)
    (hbase : s.baseLevel = (m.mine cpu).baseLevel) (hstate : s.state ≠ .free) :
    Steady m ((m.set (m.current cpu) s).switchAway cpu) :=
  (Steady.set hlevel hbase hstate).trans (.switchAway _ cpu)

section
variable (m : Network)

variable (cpu : Cpu)

theorem Steady.blockCurrentLocked : Steady m (m.blockCurrentLocked cpu) := by
  rw [Network.blockCurrentLocked]
  exact .rest rfl rfl nofun

theorem Steady.demote : Steady m (m.demote cpu) := by
  rw [Network.demote]
  split
  · exact .set rfl rfl (by simp)
  · exact .refl m

theorem Steady.unblockLocked (i : Id) : Steady m (m.unblockLocked i) := by
  rw [Network.unblockLocked]
  split
  · exact .set rfl rfl (by simp)
  · exact .refl m

theorem Steady.wakeDueSleepers (now : Nat) : Steady m (m.wakeDueSleepers now) := by
  constructor
  all_goals simp only [Network.wakeDueSleepers]
  all_goals grind

theorem Steady.spawn (level : Nat) (idle : Bool) : Steady m (m.spawn level idle) := by
  rw [Network.spawn]
  split
  · exact .refl m
  next i hi => exact .fresh (allocSlot_free hi) rfl (by simp)

theorem Steady.becomeIdle : Steady m (m.becomeIdle cpu) := by
  rw [Network.becomeIdle]
  cases hi : m.allocSlot with
  | none => exact ⟨fun _ _ => ⟨rfl, rfl⟩, fun _ h => h, fun _ h => h, fun h => h⟩
  | some i =>
    have hfree := allocSlot_free hi
    constructor
    all_goals simp only [Network.set]
    all_goals grind [update_apply]

theorem Steady.step {e : Cpu × Event} (hwhole : e.2.whole = true) : Steady m (m.step e) := by
  obtain ⟨cpu, ev⟩ := e
  cases hon : m.online cpu with
  | false =>
    cases ev with
    | becomeIdle => simpa only [Network.step, hon] using Steady.becomeIdle m cpu
    | _ => simpa only [Network.step, hon] using Steady.refl m
  | true =>
    simp only [Network.step, hon]
    cases ev with
    | spawn level => exact .spawn m level false
    | becomeIdle => exact .refl m
    | yield => exact (Steady.demote m cpu).trans (.switchAway _ cpu)
    | sleep ticks now =>
      dsimp only
      split
      · exact .rest rfl rfl (by simp)
      · exact .refl m
    | resched now =>
      exact ((Steady.wakeDueSleepers m now).trans (.demote _ cpu)).trans (.switchAway _ cpu)
    | finish =>
      dsimp only
      rw [sisterFinish]
      split
      · exact .rest rfl rfl (by simp)
      · exact .refl m
    | block | unblock | levelUpper | levelRestore => cases hwhole

/-- A Sister gets another level. -/
def setLevel (i : Id) (l : Nat) : Network := m.set i { m.sisters i with level := l }

theorem levelUpper_eq (o : Id) (l : Nat) :
    m.levelUpper o l = m.setLevel o (max (m.sisters o).level l) := by
  rw [levelUpper, setLevel]
  split
  next hlt => rw [Nat.max_eq_right hlt.le]
  next hlt =>
    rw [Nat.max_eq_left (Nat.not_lt.1 hlt)]
    exact congrArg (fun f => { m with sisters := f }) (update_eq_self o m.sisters).symm

end

end Network

/-! ## What a call does to the levels -/

namespace Mutexes

variable {μ : Type}

/-- The first half of the property. -/
def Lent (c : Mutexes μ) : Prop :=
    ∀ m o, c.owner m = some o → ∀ i ∈ c.waiters m, c.level i ≤ c.level o

def Own (c : Mutexes μ) : Prop := ∀ i, (∀ m, c.owner m ≠ some i) → c.level i = c.baseLevel i

/-- Owners and waiters are Sisters. -/
structure Filled (c : Mutexes μ) : Prop where
  current : ∀ cpu, (c.net.sisters (c.net.current cpu)).state ≠ .free
  member : ∀ m i, c.owner m = some i ∨ i ∈ c.waiters m → (c.net.sisters i).state ≠ .free

/-- The mutex is held if it has an owner, and nobody waits for what nobody holds. -/
structure Orderly (l : Judgement) : Prop where
  held : l.held = l.owner.isSome
  tidy : l.waiters.Tidy
  nobody : l.owner = none → l.waiters.contents = []

structure Inv (c : Mutexes μ) : Prop where
  lent : c.Lent
  own : c.Own
  filled : c.Filled
  base : ∀ i, c.baseLevel i ≤ c.level i
  locks : ∀ m, Orderly (c.locks m)

variable {o i : Id} {cpu : Cpu} {c : Mutexes μ} {net : Network} {l : Judgement}

section
variable (hs : c.net.Steady net)
include hs

/-- The scheduler does something. -/
theorem Lent.steady (hf : c.Filled) : Lent { c with net := net } ↔ c.Lent := by
  have hlevel : ∀ i, (c.net.sisters i).state ≠ .free → (net.sisters i).level =
    (c.net.sisters i).level :=
    fun i hi => (hs.level i hi).1
  constructor
  · intro h m o ho i hi
    have hle := h m o ho i hi
    simp only [level, hlevel i (hf.member m i (.inr hi)), hlevel o (hf.member m o (.inl ho))] at hle
    exact hle
  · intro h m o ho i hi
    have hle := h m o ho i hi
    simp only [level, hlevel i (hf.member m i (.inr hi)), hlevel o (hf.member m o (.inl ho))]
    exact hle

theorem Own.steady (h : c.Own) : Own { c with net := net } :=
  fun i hi => hs.own i (h i hi)

theorem Filled.steady (h : c.Filled) : Filled { c with net := net } :=
  ⟨hs.current h.current, fun m i hi => hs.used i (h.member m i hi)⟩

theorem Inv.steady (h : c.Inv) : Inv { c with net := net } := by
  have hown := h.own.steady hs
  refine ⟨(Lent.steady hs h.filled).2 h.lent, hown, h.filled.steady hs, fun i => ?_, h.locks⟩
  by_cases hfree : (c.net.sisters i).state = .free
  · exact (hown i fun m ho => h.filled.member m i (.inl ho) hfree).ge
  · have hlevel := hs.level i hfree
    simp only [level, baseLevel, hlevel.1, hlevel.2]
    exact h.base i

end

/-- A Sister is put into the queue. -/
def queued (l : Judgement) (i : Id) : Judgement := { l with waiters := enqueue l.waiters i }

theorem queued_spec (h : Orderly l) (ho : l.owner = some o) (i : Id) :
    Orderly (queued l i) ∧ (queued l i).owner = some o ∧ (queued l i).waiters.contents =
      if l.waiters.avail < kJudgementMaxWaiters then l.waiters.contents ++
        [i] else l.waiters.contents := by
  have hsome : l.owner ≠ none := ho ▸ Option.some_ne_none o
  rw [queued]
  split
  next hroom =>
    obtain ⟨htidy, hcontents⟩ := World.enqueue_spec h.tidy hroom i
    exact ⟨⟨h.held, htidy, fun hnone => absurd hnone hsome⟩, ho, hcontents⟩
  next hroom =>
    rw [enqueue, if_pos (Nat.not_lt.1 hroom)]
    exact ⟨h, ho, rfl⟩

/-- The mutex goes to the first in the queue. -/
def passOn (l : Judgement) : Judgement :=
  if 0 < l.waiters.avail then { l with owner := some l.waiters.get.1, waiters := l.waiters.get.2 }
  else { l with held := false, owner := none }

/-- Who has the mutex afterwards, and who still waits. -/
theorem passOn_spec (h : Orderly l) (ho : l.owner = some i) :
    Orderly (passOn l) ∧
      ((∃ next rest, l.waiters.contents = next :: rest ∧ (passOn l).owner = some next ∧
          (passOn l).waiters.contents = rest) ∨
        l.waiters.contents = [] ∧ (passOn l).owner = none ∧ (passOn l).waiters.contents = []) := by
  have hheld : l.held = true := by rw [h.held, ho]; rfl
  rw [passOn]
  split
  next hpos =>
    exact ⟨⟨hheld, h.tidy.get hpos, nofun⟩, .inl
      ⟨_, _, RingBuffer.contents_get hpos h.tidy, rfl, rfl⟩⟩
  next hpos =>
    have hnil := RingBuffer.contents_eq_nil (Nat.eq_zero_of_not_pos hpos)
    exact ⟨⟨rfl, h.tidy, fun _ => hnil⟩, .inr ⟨hnil, rfl, hnil⟩⟩

/-- The levels, when that of `i` is `lv`. -/
def levelWith (c : Mutexes μ) (i : Id) (lv : Nat) (j : Id) : Nat := if j = i then lv else c.level j

theorem restored_eq (c : Mutexes μ) (i j : Id) :
    c.restored i j = c.levelWith i (c.baseLevel i) j := by
  grind [restored, levelWith]

variable [DecidableEq μ] {c : Mutexes μ} {m : μ} {lv : Nat} {e : Cpu × Action μ}

/-- What a call does: `i` gets the level `lv`, and the mutex `m` becomes `l`. -/
def turn (c : Mutexes μ) (i : Id) (lv : Nat) (m : μ) (l : Judgement) : Mutexes μ :=
  { net := c.net.setLevel i lv, locks := update c.locks m l }

theorem turn_sisters (c : Mutexes μ) (i : Id) (lv : Nat) (m : μ) (l : Judgement) (j : Id) :
    ((c.turn i lv m l).net.sisters j).state = (c.net.sisters j).state ∧
      (c.turn i lv m l).baseLevel j = c.baseLevel j ∧
      (c.turn i lv m l).level j = c.levelWith i lv j := by
  simp only [turn, baseLevel, level, levelWith, Network.setLevel, Network.set_sisters]
  grind

theorem turn_locks (c : Mutexes μ) (i : Id) (lv : Nat) (m : μ) (l : Judgement) (m' : μ) :
    (c.turn i lv m l).owner m' = (if m' = m then l.owner else c.owner m') ∧
      (c.turn i lv m l).waiters m' = if m' = m then l.waiters.contents else c.waiters m' := by
  simp only [owner, waiters, turn, update_apply]
  split <;> exact ⟨rfl, rfl⟩

theorem Filled.turn (h : c.Filled)
    (hl : ∀ j, l.owner = some j ∨ j ∈ l.waiters.contents → (c.net.sisters j).state ≠ .free) :
    Filled (c.turn i lv m l) := by
  have hstate := fun j => (c.turn_sisters i lv m l j).1
  refine ⟨fun cpu => (hstate _).trans_ne (h.current cpu), fun m' j hj => (hstate j).trans_ne ?_⟩
  have hold := h.member m' j
  have hlocks := c.turn_locks i lv m l m'
  grind

/-- Levels are lent, if they are for the mutex `m` and for every other one. -/
theorem lent_turn_iff :
    Lent (c.turn i lv m l) ↔
      (∀ p, l.owner = some p → ∀ j ∈ l.waiters.contents, c.levelWith i lv j ≤ c.levelWith i lv p) ∧
        ∀ m', m' ≠ m → ∀ p, c.owner m' = some p → ∀ j ∈ c.waiters m',
          c.levelWith i lv j ≤ c.levelWith i lv p := by
  have hlevel := fun j => (c.turn_sisters i lv m l j).2.2
  have hlocks := c.turn_locks i lv m l
  simp only [Lent, hlevel, (hlocks _).1, (hlocks _).2]
  refine ⟨fun h => ⟨fun p => ?_, fun m' hm p => ?_⟩, fun h m' p => ?_⟩
  · simpa only [if_true] using h m p
  · simpa only [if_neg hm] using h m' p
  · by_cases hm : m' = m
    · simpa only [if_pos hm] using h.1 p
    · simpa only [if_neg hm] using h.2 m' hm p

theorem Inv.turn (h : c.Inv) (hl : Orderly l) (hfilled : Filled (c.turn i lv m l))
    (hbase : c.baseLevel i ≤ lv)
    (hown : ∀ j, l.owner ≠ some j → (∀ m', m' ≠ m → c.owner m' ≠ some j) → c.levelWith i lv j =
      c.baseLevel j)
    (hlent : Lent (c.turn i lv m l)) : Inv (c.turn i lv m l) := by
  have hsisters := c.turn_sisters i lv m l
  refine ⟨hlent, fun j hj => ?_, hfilled, fun j => ?_, fun m' => ?_⟩
  · rw [(hsisters j).2.1, (hsisters j).2.2]
    have hlocks := c.turn_locks i lv m l
    refine hown j ?_ fun m' hm => ?_
    · have hm := hj m
      rwa [(hlocks m).1, if_pos rfl] at hm
    · have hm' := hj m'
      rwa [(hlocks m').1, if_neg hm] at hm'
  · rw [(hsisters j).2.2, levelWith]
    have hold := h.base j
    grind
  · simp only [Mutexes.turn, update_apply]
    split
    · exact hl
    · exact h.locks m'

/-- A held mutex is asked for: the holder is lent the level, and the caller is queued. -/
def lend (c : Mutexes μ) (o i : Id) (m : μ) : Mutexes μ :=
  c.turn o (max (c.level o) (c.level i)) m (queued (c.locks m) i)

theorem Inv.filled_lend (h : c.Inv) (ho : c.owner m = some o)
    (hi : (c.net.sisters i).state ≠ .free) : Filled (c.lend o i m) := by
  obtain ⟨-, howner, hqueue⟩ := queued_spec (h.locks m) ho i
  refine h.filled.turn fun j hj => ?_
  have hold := h.filled.member m j
  rw [owner, waiters] at hold
  rw [owner] at ho
  grind

theorem Inv.lend (h : c.Inv) (ho : c.owner m = some o) (hi : (c.net.sisters i).state ≠ .free)
    (hcare : ∀ m' p, o ∈ c.waiters m' → c.owner m' = some p → p ≠ o → c.level i ≤ c.level p) :
    Inv (c.lend o i m) := by
  obtain ⟨hl, howner, hqueue⟩ := queued_spec (h.locks m) ho i
  refine h.turn hl (h.filled_lend ho hi) (le_max_of_le_left (h.base o)) (fun j hj hother => ?_)
    (lent_turn_iff.2 ⟨fun p hp j hj => ?_, fun m' hm p hp j hj => ?_⟩)
  · have hold := h.own j
    grind [levelWith]
  · have hold := h.lent m o ho j
    rw [waiters] at hold
    grind [levelWith]
  · have hold := h.lent m' p hp j hj
    grind [levelWith]

/-- If the holder waits itself for somebody of a lower level, that one has too low a level now. -/
theorem of_lend (hlent : Lent (c.lend o i m)) (ho : c.owner m = some o) (m' : μ) (p : Id)
    (hmem : o ∈ c.waiters m') (hp : c.owner m' = some p) (hne : p ≠ o) : c.level i ≤ c.level p := by
  have hm : m' ≠ m := by
    rintro rfl
    exact hne (Option.some.inj (hp.symm.trans ho))
  have hle := (lent_turn_iff.1 hlent).2 m' hm p hp o hmem
  rw [levelWith, levelWith, if_pos rfl, if_neg hne] at hle
  exact (le_max_right _ _).trans hle

/-- The mutex is unlocked: the caller has its own level again. -/
def restore (c : Mutexes μ) (i : Id) (m : μ) : Mutexes μ :=
    c.turn i (c.baseLevel i) m (passOn (c.locks m))

section
variable (h : c.Inv) (ho : c.owner m = some i)
include h ho

theorem Inv.filled_restore : Filled (c.restore i m) := by
  obtain ⟨-, hcases⟩ := passOn_spec (h.locks m) ho
  refine h.filled.turn fun j hj => ?_
  have hold := h.filled.member m j
  rw [waiters] at hold
  grind

theorem Inv.restore
    (hother : ∀ m', m' ≠ m → c.owner m' = some i → ∀ j ∈ c.waiters m',
      c.restored i j ≤ c.baseLevel i)
    (hnext : ∀ next rest, c.waiters m = next :: rest → ∀ j ∈ rest,
      c.restored i j ≤ c.restored i next) :
    Inv (c.restore i m) := by
  obtain ⟨hl, hcases⟩ := passOn_spec (h.locks m) ho
  simp only [restored_eq, waiters] at hother hnext
  refine h.turn hl (h.filled_restore ho) le_rfl (fun j hj hfree => ?_)
    (lent_turn_iff.2 ⟨fun p hp j hj => ?_, fun m' hm p hp j hj => ?_⟩)
  · have hold := h.own j
    grind [levelWith]
  · grind
  · have hold := h.lent m' p hp j hj
    have hbase := h.base j
    rw [waiters] at hj
    grind [levelWith]

/-- If somebody of a higher level waits for another mutex of the caller, or for this one after it
has been handed on, then the new level is too low. -/
theorem Inv.of_restore (hlent : Lent (c.restore i m)) :
    (∀ m', m' ≠ m → c.owner m' = some i → ∀ j ∈ c.waiters m', c.restored i j ≤ c.baseLevel i) ∧
      ∀ next rest, c.waiters m = next :: rest → ∀ j ∈ rest, c.restored i j ≤ c.restored i next := by
  obtain ⟨hmine, hother⟩ := lent_turn_iff.1 hlent
  obtain ⟨-, hcases⟩ := passOn_spec (h.locks m) ho
  simp only [restored_eq]
  constructor
  · intro m' hne hi j hj
    have hle := hother m' hne i hi j hj
    rwa [levelWith, levelWith, if_pos rfl] at hle
  · intro next rest hwaiters j hj
    rw [waiters] at hwaiters
    grind

end

/-! ## Runs -/

section
variable (hcalls : (c.sync m).calls cpu = true)
include hcalls

theorem step_lock_held (hheld : (c.locks m).held = true)
    (ho : c.owner m = some o) :
    c.step (cpu, .lock m) = { c.lend o (c.net.current cpu) m with
      net := (c.lend o (c.net.current cpu) m).net.blockCurrentLocked cpu } := by
  have hheld' : (c.sync m).lock.held = true := hheld
  have howner : (c.sync m).lock.owner = some o := ho
  rw [step]
  dsimp only
  rw [if_pos hcalls, Sync.judgementLock, if_pos hheld', Sync.lendLevel, howner]
  dsimp only
  rw [Network.levelUpper_eq]
  rfl

theorem step_lock_free (hheld : (c.locks m).held = false) :
    c.step (cpu, .lock m) = c.turn (c.net.current cpu) (c.level (c.net.current cpu)) m
      { c.locks m with held := true, owner := some (c.net.current cpu) } := by
  have hheld' : ¬ (c.sync m).lock.held = true := by rw [sync, hheld]; exact nofun
  rw [step]
  dsimp only
  rw [if_pos hcalls, Sync.judgementLock, if_neg hheld', turn, Network.setLevel, level, Network.set,
    update_eq_self]
  rfl

theorem step_unlock (ho : c.owner m = some (c.net.current cpu)) :
    ∃ net, (c.restore (c.net.current cpu) m).net.Steady net ∧
      c.step (cpu, .unlock m) = { c.restore (c.net.current cpu) m with net := net } := by
  have howner : ¬ (c.sync m).lock.owner ≠ some ((c.sync m).net.current cpu) := not_not.2 ho
  rw [step]
  dsimp only
  rw [if_pos hcalls, Sync.judgementUnlock, if_neg howner]
  by_cases hpos : 0 < (c.locks m).waiters.avail
  · refine ⟨(c.restore (c.net.current cpu) m).net.unblockLocked (c.locks m).waiters.get.1,
      .unblockLocked _ _, ?_⟩
    simp only [sync, hpos, restore, passOn]
    rfl
  · refine ⟨_, .refl _, ?_⟩
    simp only [sync, hpos, restore, passOn]
    rfl

end

theorem step_unlock_other (ho : c.owner m ≠ some (c.net.current cpu)) :
    c.step (cpu, .unlock m) = c := by
  have howner : (c.sync m).lock.owner ≠ some ((c.sync m).net.current cpu) := ho
  rw [step]
  dsimp only
  split
  · rw [Sync.judgementUnlock, if_pos howner, put, sync, update_eq_self]
  · rfl

/-- A free mutex is taken. -/
theorem Inv.take (h : c.Inv) (ho : c.owner m = none) (hi : (c.net.sisters i).state ≠ .free) :
    Inv (c.turn i (c.level i) m { c.locks m with held := true, owner := some i }) := by
  have hnil := (h.locks m).nobody ho
  have hlevel : ∀ j, c.levelWith i (c.level i) j = c.level j := by grind [levelWith]
  refine h.turn ⟨rfl, (h.locks m).tidy, nofun⟩ (h.filled.turn fun j hj => ?_) (h.base i)
    (fun j hj hother => ?_) (lent_turn_iff.2 ⟨fun p hp j hj => ?_, fun m' hm p hp j hj => ?_⟩)
  · grind
  · rw [hlevel]
    refine h.own j fun m' => ?_
    by_cases hm : m' = m
    · rw [hm, ho]
      exact nofun
    · exact hother m' hm
  · rw [hnil] at hj
    cases hj
  · rw [hlevel, hlevel]
    exact h.lent m' p hp j hj

theorem Inv.step (h : c.Inv) (hcare : c.Careful e) : Inv (c.step e) := by
  obtain ⟨cpu, d⟩ := e
  cases d with
  | sched ev =>
    rw [step]
    dsimp only
    split
    next hwhole => exact h.steady (.step _ hwhole)
    · exact h
  | lock m =>
    by_cases hcalls : (c.sync m).calls cpu = true
    · cases ho : c.owner m with
      | none =>
        have hheld : (c.locks m).held =
          false := by rw [(h.locks m).held]; exact congrArg Option.isSome ho
        rw [step_lock_free hcalls hheld]
        exact h.take ho (h.filled.current cpu)
      | some o =>
        rw [step_lock_held hcalls (by rw [(h.locks m).held]; exact congrArg Option.isSome ho) ho]
        exact (h.lend ho (h.filled.current cpu) (hcare hcalls o ho)).steady (.blockCurrentLocked
          _ cpu)
    · rw [step]
      dsimp only
      rwa [if_neg hcalls]
  | unlock m =>
    by_cases hcalls : (c.sync m).calls cpu = true
    · by_cases ho : c.owner m = some (c.net.current cpu)
      · obtain ⟨net, hsteady, heq⟩ := step_unlock hcalls ho
        obtain ⟨hother, hnext⟩ := hcare hcalls ho
        rw [heq]
        exact (h.restore ho hother hnext).steady hsteady
      · rwa [step_unlock_other ho]
    · rw [step]
      dsimp only
      rwa [if_neg hcalls]

omit [DecidableEq μ] in
theorem Inv.inherits (h : c.Inv) : c.Inherits := ⟨h.lent, h.own⟩

/-- Levels are inherited after careful calls only. -/
theorem Inv.careful (h : c.Inv) (hafter : (c.step e).Inherits) : c.Careful e := by
  obtain ⟨cpu, d⟩ := e
  have hlent : (c.step (cpu, d)).Lent := hafter.lent
  cases d with
  | sched ev => trivial
  | lock m =>
    intro hcalls o ho
    rw [step_lock_held hcalls (by rw [(h.locks m).held]; exact congrArg Option.isSome ho)
      ho] at hlent
    have hfilled := h.filled_lend ho (h.filled.current cpu)
    exact of_lend ((Lent.steady (.blockCurrentLocked _ cpu) hfilled).1 hlent) ho
  | unlock m =>
    intro hcalls ho
    obtain ⟨net, hsteady, heq⟩ := step_unlock hcalls ho
    rw [heq] at hlent
    exact h.of_restore ho ((Lent.steady hsteady (h.filled_restore ho)).1 hlent)

end Mutexes

/-- Nobody has called yet. -/
theorem Mutexes.Inv.start {μ : Type} : Mutexes.Inv ({} : Mutexes μ) := by
  have hlevels : ∀ i, (init.sisters i).level = (init.sisters i).baseLevel := by decide
  have hcurrent : ∀ cpu, (init.sisters (init.current cpu)).state ≠ .free := by decide
  refine ⟨nofun, fun i _ => hlevels i, ⟨hcurrent, nofun⟩, fun i => (hlevels i).ge, fun _ => ?_⟩
  exact ⟨rfl, RingBuffer.tidy_empty _ (by decide), fun _ => rfl⟩

/-- **Main theorem.** For any mutexes, in every run of the scheduler and of calls that lock and
unlock them, the levels are inherited in every state exactly if every call is careful. -/
theorem inherits_iff {μ : Type} [DecidableEq μ] (es : List (Cpu × Action μ)) :
    Always Mutexes.step Mutexes.Inherits ({} : Mutexes μ) es ↔ EachStep Mutexes.step Mutexes.Careful
      {} es :=
  always_iff_eachStep (I := Mutexes.Inv) (fun _ h => h.inherits)
    (fun _ _ h _ hcare => h.step hcare) (fun _ _ h _ hafter => h.careful hafter) .start
    (EachStep.trivial es)

/-- Three ways to lose what was lent: by unlocking another mutex, by handing the mutex on, and by a
holder that waits itself. -/
theorem inheritance_lost :
    ¬ Always Mutexes.step Mutexes.Inherits ({} : Mutexes Bool)
      [(cpu0, .lock false), (cpu0, .lock true), (cpu0, .sched (.spawn 7)), (cpu0, .sched .yield),
        (cpu0, .lock false), (cpu0, .unlock true)] ∧
    ¬ Always Mutexes.step Mutexes.Inherits ({} : Mutexes Bool)
      [(cpu0, .lock false), (cpu0, .sched (.spawn 6)), (cpu0, .sched .yield), (cpu0, .lock false),
        (cpu0, .sched (.spawn 7)),
        (cpu0, .sched .yield), (cpu0, .lock false), (cpu0, .unlock false)] ∧
    ¬ Always Mutexes.step Mutexes.Inherits ({} : Mutexes Bool)
      [(cpu0, .lock false), (cpu0, .sched (.spawn 6)), (cpu0, .sched .yield), (cpu0, .lock true),
        (cpu0, .lock false),
        (cpu0, .sched (.spawn 7)), (cpu0, .sched .yield), (cpu0, .lock true)] := by
  refine ⟨fun h => ?_, fun h => ?_, fun h => ?_⟩
  · exact absurd (h.last.lent false ⟨0, by decide⟩ rfl ⟨2, by decide⟩ (by decide)) (by decide)
  · exact absurd (h.last.lent false ⟨2, by decide⟩ rfl ⟨3, by decide⟩ (by decide)) (by decide)
  · exact absurd (h.last.lent false ⟨0, by decide⟩ rfl ⟨2, by decide⟩ (by decide)) (by decide)

end IndexOS.Misaka
