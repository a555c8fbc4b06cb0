import IndexOS.Misaka.Network

/-!
# The scheduler never continues a Sister that is not ready

Every CPU that is up runs a Sister of its own, and nothing else is marked as running.  The weak spot
is a CPU whose Sister has just blocked, gone to sleep or finished: if nobody were ready, `switch_to`
would mark that one as running again.  Somebody always is, because there are as many idle Sisters as
CPUs that are up, an idle Sister is ready or running, and a CPU that has just put a Sister to rest
runs none of them.

* `Inv` — the invariant; `Vacant` — what is left of it while a CPU has put its Sister aside;
* `Vacant.exists_ready` — the counting argument;
* `Picked`, `Vacant.picked` — what a switch does;
* `Lawful` — what a step may do to Sisters that rest, and whom a switch may take;
* `schedules_lawfully` — every run keeps both.
-/

set_option autoImplicit false

namespace IndexOS.Misaka
variable {e : Cpu × Event}

namespace Network

open Function (update update_apply update_eq_self update_of_ne)
open Traces (Always EachStep)

variable {m m₁ m' : Network} {c cpu : Cpu} {i : Id}

/-! ## Small facts about the sections -/

section
variable (m : Network) (i : Id) (cpu : Cpu) (s : Sister)

@[simp] theorem set_sisters (i j : Id) (s : Sister) :
    (m.set i s).sisters j = if j = i then s else m.sisters j := by
  simp [set, update_apply]

@[simp] theorem set_current : (m.set i s).current = m.current := rfl

theorem mine_set : (m.set (m.current cpu) s).mine cpu = s := by
  rw [mine, set_current, set_sisters, if_pos rfl]

theorem switchTo_eq (next : Id) :
    m.switchTo cpu next =
      { m.set next { m.sisters next with state := .running, owner := cpu } with
        current := update m.current cpu next } := by
  rw [switchTo]
  split
  next h =>
    rw [h, update_eq_self]
    rfl
  · rfl

end

/-! ## Picking -/

theorem bestLevel_spec (m : Network) :
    (∀ i, (m.sisters i).state = .ready → ((m.sisters i).level : Int) ≤ m.bestLevel) ∧
      (m.bestLevel = -1 ∨ ∃ i, (m.sisters i).state = .ready ∧
        ((m.sisters i).level : Int) = m.bestLevel) := by
  -- over any list of places, the fold bounds those it has seen and is attained
  have hfold : ∀ (l : List Id) (b : Int), b ≤ l.foldl m.betterLevel b ∧
      (∀ i ∈ l, (m.sisters i).state = .ready →
        ((m.sisters i).level : Int) ≤ l.foldl m.betterLevel b) ∧
      (l.foldl m.betterLevel b = b ∨
        ∃ i, (m.sisters i).state = .ready ∧
          ((m.sisters i).level : Int) = l.foldl m.betterLevel b) := by
    intro l
    induction l with
    | nil => exact fun b => ⟨le_refl b, nofun, Or.inl rfl⟩
    | cons j rest ih =>
      intro b
      rw [List.foldl_cons, betterLevel]
      split
      next hj =>
        obtain ⟨hle, hall, hatt⟩ := ih ((m.sisters j).level : Int)
        refine ⟨le_trans (le_of_lt hj.2) hle, ?_, ?_⟩
        · rw [List.forall_mem_cons]
          exact ⟨fun _ => hle, hall⟩
        · rcases hatt with heq | hi
          · exact Or.inr ⟨j, hj.1, heq.symm⟩
          · exact Or.inr hi
      next hj =>
        obtain ⟨hle, hall, hatt⟩ := ih b
        refine ⟨hle, ?_, hatt⟩
        rw [List.forall_mem_cons]
        refine ⟨fun hready => le_trans ?_ hle, hall⟩
        exact not_lt.1 fun hlt => hj ⟨hready, hlt⟩
  obtain ⟨-, hall, hatt⟩ := hfold (List.finRange kMaxSisters) (-1)
  exact ⟨fun i => hall i (List.mem_finRange i), hatt⟩

theorem mem_scanFrom (start i : Id) : i ∈ scanFrom start := by
  have hi := i.isLt
  refine List.mem_map.2
    ⟨⟨(i.val + kMaxSisters - start.val - 1) % kMaxSisters, Nat.mod_lt _ (by decide)⟩,
    List.mem_finRange _, Fin.ext ?_⟩
  show (start.val + (i.val + kMaxSisters - start.val - 1) % kMaxSisters + 1) % kMaxSisters = i.val
  rw [Nat.add_right_comm, Nat.add_mod_mod,
    show start.val + 1 + (i.val + kMaxSisters - start.val - 1) = i.val + kMaxSisters by omega,
    Nat.add_mod_right, Nat.mod_eq_of_lt hi]

/-- If anybody is ready, a Sister of the highest level is picked. -/
theorem pickNext_ready (start : Id) (h : (m.sisters i).state = .ready) :
    (m.sisters (m.pickNext start)).state = .ready ∧
      ∀ j, (m.sisters j).state = .ready → (m.sisters j).level ≤
        (m.sisters (m.pickNext start)).level := by
  obtain ⟨hall, hatt⟩ := m.bestLevel_spec
  have hbest : 0 ≤ m.bestLevel := le_trans (Int.natCast_nonneg _) (hall i h)
  obtain ⟨b, hb, hlevel⟩ := hatt.resolve_left (by omega)
  have hsome : ((scanFrom start).find? fun i =>
      (m.sisters i).state = .ready ∧ ((m.sisters i).level : Int) = m.bestLevel).isSome = true :=
    List.find?_isSome.2 ⟨b, mem_scanFrom start b, decide_eq_true ⟨hb, hlevel⟩⟩
  obtain ⟨n, hn⟩ := Option.isSome_iff_exists.1 hsome
  have hpick : m.pickNext start = n := by
    rw [pickNext, if_neg (by omega), hn, Option.getD_some]
  have hspec := List.find?_some hn
  simp only [decide_eq_true_eq] at hspec
  rw [hpick]
  refine ⟨hspec.1, fun j hj => ?_⟩
  have := hall j hj
  omega

/-! ## The invariant -/

/-- Each of the CPUs `up` runs its own Sister, only those are marked as running, and an idle Sister
is ready or running. -/
structure Seats (m : Network) (up : Cpu → Prop) : Prop where
  current : ∀ c, up c → (m.mine c).state = .running ∧ (m.mine c).owner = c
  running : ∀ i, (m.sisters i).state = .running →
    up (m.sisters i).owner ∧ m.current (m.sisters i).owner = i
  idle : ∀ i, (m.sisters i).idle = true → (m.sisters i).state = .ready ∨
    (m.sisters i).state = .running

/-- There are as many idle Sisters as CPUs that are up. -/
def Counted (m : Network) : Prop :=
  (Finset.univ.filter fun i => (m.sisters i).idle = true).card =
    (Finset.univ.filter fun c => m.online c = true).card

/-- Every CPU that is up has its seat. -/
structure Inv (m : Network) : Prop extends Seats m (m.online · = true) where
  count : m.Counted

/-- The same while the CPU has put its Sister aside. -/
structure Vacant (m : Network) (cpu : Cpu) :
    Prop extends Seats m fun c => c ≠ cpu ∧ m.online c = true where
  online : m.online cpu = true
  count : m.Counted

variable {s : Sister}

section
variable {up up' : Cpu → Prop} (h : Seats m up)
include h

/-- Sisters are written and none comes to run: the seats are those of the CPUs whose Sister runs
on. -/
theorem Seats.change (hcur : m'.current = m.current)
    (hrun : ∀ i, (m'.sisters i).state = .running →
      (m.sisters i).state = .running ∧ (m'.sisters i).owner = (m.sisters i).owner)
    (hidle : ∀ i, (m'.sisters i).idle = true →
      (m'.sisters i).state = .ready ∨ (m'.sisters i).state = .running)
    (hup : ∀ c, up' c ↔ up c ∧ (m'.mine c).state = .running) : Seats m' up' := by
  refine ⟨fun c hc => ?_, fun i hi => ?_, hidle⟩
  · obtain ⟨hold, hnow⟩ := (hup c).1 hc
    refine ⟨hnow, ?_⟩
    rw [mine, hcur] at hnow ⊢
    exact (hrun _ hnow).2.trans (h.current c hold).2
  · obtain ⟨hwas, howner⟩ := hrun i hi
    obtain ⟨hold, hat⟩ := h.running i hwas
    rw [howner, hcur]
    refine ⟨(hup _).2 ⟨hold, ?_⟩, hat⟩
    rw [mine, hcur, hat]
    exact hi

/-- A Sister that was not running gets the seat of a CPU that has none. -/
theorem Seats.seat {n : Id} (hn : (m.sisters n).state ≠ .running) (hcpu : ¬ up cpu)
    (hs : s.state = .running ∧ s.owner = cpu)
    (hsisters : ∀ i, m'.sisters i = if i = n then s else m.sisters i)
    (hcurrent : ∀ c, m'.current c = if c = cpu then n else m.current c)
    (hup : ∀ c, up' c ↔ c = cpu ∨ up c) : Seats m' up' := by
  refine ⟨fun c hc => ?_, fun i hi => ?_, fun i hi => ?_⟩
  · rw [mine, hcurrent]
    split
    next heq =>
      rw [hsisters, if_pos rfl]
      exact ⟨hs.1, hs.2.trans heq.symm⟩
    next hne =>
      have hold := h.current c (((hup c).1 hc).resolve_left hne)
      rw [hsisters, if_neg]
      · exact hold
      · intro heq
        rw [mine, heq] at hold
        exact hn hold.1
  · rw [hsisters] at hi ⊢
    rw [hcurrent, hup]
    split at hi
    next heq =>
      rw [if_pos heq, hs.2, if_pos rfl]
      exact ⟨Or.inl rfl, heq.symm⟩
    next hne =>
      rw [if_neg hne]
      obtain ⟨hold, hat⟩ := h.running i hi
      rw [if_neg fun heq : _ = cpu => hcpu (heq ▸ hold)]
      exact ⟨Or.inr hold, hat⟩
  · rw [hsisters] at hi ⊢
    split at hi
    next heq =>
      rw [if_pos heq]
      exact Or.inr hs.1
    next hne =>
      rw [if_neg hne]
      exact h.idle i hi

end

/-- The Sister neither comes to run nor ceases to, and is idle or not as before. -/
structure Kin (s s' : Sister) : Prop where
  idle : s'.idle = s.idle
  state : s'.state = s.state ∧ s'.owner = s.owner ∨
    s.state ≠ .running ∧ s'.state ≠ .running ∧ (s'.idle = true → s'.state = .ready)

theorem Counted.of_idle (h : m.Counted) (hon : m'.online = m.online)
    (hidle : ∀ i, (m'.sisters i).idle = (m.sisters i).idle) : m'.Counted := by
  rw [Counted, hon, ← h]
  exact congrArg Finset.card (Finset.filter_congr fun i _ => by rw [hidle])

theorem Inv.change (h : Inv m) (hcur : m'.current = m.current) (hon : m'.online = m.online)
    (hkin : ∀ i, Kin (m.sisters i) (m'.sisters i)) : Inv m' := by
  refine ⟨h.toSeats.change hcur (fun i hi => ?_) (fun i hi => ?_) fun c => ?_,
    h.count.of_idle hon fun i => (hkin i).idle⟩
  · rcases (hkin i).state with hs | hs
    · exact ⟨hs.1 ▸ hi, hs.2⟩
    · exact absurd hi hs.2.1
  · rcases (hkin i).state with hs | hs
    · rw [hs.1]
      exact h.idle i ((hkin i).idle ▸ hi)
    · exact Or.inl (hs.2.2 hi)
  · rw [hon, iff_self_and, mine, hcur]
    intro hc
    have hrun := (h.current c hc).1
    rcases (hkin (m.current c)).state with hs | hs
    · exact hs.1.trans hrun
    · exact absurd hrun hs.1

/-- Different CPUs run different Sisters. -/
theorem Inv.current_inj (h : Inv m) {c c' : Cpu} (hc : m.online c = true) (hc' : m.online c' = true)
    (heq : m.current c = m.current c') : c = c' := by
  have ho := (h.current c hc).2
  have ho' := (h.current c' hc').2
  rw [mine, heq] at ho
  exact ho.symm.trans ho'

/-- The Sister of the CPU is written and no longer running; an idle one is ready. -/
theorem Inv.aside (h : Inv m) (hon : m.online cpu = true) (hs : s.state ≠ .running)
    (hidle : s.idle = (m.mine cpu).idle) (hready : s.idle = true → s.state = .ready) :
    Vacant (m.set (m.current cpu) s) cpu := by
  refine ⟨h.toSeats.change rfl (fun i hi => ?_) (fun i hi => ?_) fun c => ?_, hon,
    h.count.of_idle rfl fun i => ?_⟩
  · rw [set_sisters] at hi ⊢
    split at hi
    · exact absurd hi hs
    next hne =>
      rw [if_neg hne]
      exact ⟨hi, rfl⟩
  · rw [set_sisters] at hi ⊢
    split at hi
    next heq =>
      rw [if_pos heq]
      exact Or.inl (hready hi)
    next hne =>
      rw [if_neg hne]
      exact h.idle i hi
  · rw [mine, set_current, set_sisters]
    split
    next heq => exact ⟨fun hc => absurd (h.current_inj hc.2 hon heq) hc.1, fun hc => absurd hc.2 hs⟩
    next hne => exact ⟨fun hc => ⟨hc.2, (h.current c hc.2).1⟩,
      fun hc => ⟨fun heq => hne (by rw [heq]), hc.1⟩⟩
  · rw [set_sisters]
    split
    next heq => rw [hidle, heq, mine]
    · rfl

/-- **The counting argument.**  There are as many idle Sisters as CPUs, and this CPU runs none of
them. -/
theorem Vacant.exists_ready (h : Vacant m cpu) : ∃ i, (m.sisters i).state = .ready := by
  by_contra hno
  have hrunning : ∀ i, (m.sisters i).idle = true → (m.sisters i).state = .running := fun i hi =>
    (h.idle i hi).resolve_left fun hready => hno ⟨i, hready⟩
  -- each idle Sister would be the current one of a CPU other than this one
  have hsub : (Finset.univ.filter fun i => (m.sisters i).idle = true) ⊆
      (((Finset.univ.filter fun c => m.online c = true).erase cpu).image m.current) := by
    intro i hi
    have hi' := hrunning i (Finset.mem_filter.1 hi).2
    obtain ⟨⟨hne, hon⟩, hcur⟩ := h.running i hi'
    refine Finset.mem_image.2 ⟨(m.sisters i).owner, Finset.mem_erase.2 ⟨hne, ?_⟩, hcur⟩
    exact Finset.mem_filter.2 ⟨Finset.mem_univ _, hon⟩
  have hmem : cpu ∈ Finset.univ.filter fun c => m.online c = true :=
    Finset.mem_filter.2 ⟨Finset.mem_univ _, h.online⟩
  have hle := le_trans (Finset.card_le_card hsub) Finset.card_image_le
  have hpos := Finset.card_pos.2 ⟨cpu, hmem⟩
  rw [show _ = _ from h.count, Finset.card_erase_of_mem hmem] at hle
  omega

/-- What a switch does: the CPU takes a ready Sister of the highest level. -/
structure Picked (m : Network) (cpu : Cpu) (n : Id) (m' : Network) : Prop where
  ready : (m.sisters n).state = .ready
  highest : ∀ j, (m.sisters j).state = .ready → (m.sisters j).level ≤ (m.sisters n).level
  eq : m' = { m.set n { m.sisters n with state := .running, owner := cpu } with
    current := update m.current cpu n }

theorem Vacant.picked (h : Vacant m cpu) : ∃ n, Picked m cpu n (m.switchAway cpu) := by
  obtain ⟨i, hi⟩ := h.exists_ready
  obtain ⟨hready, hhighest⟩ := pickNext_ready (m.current cpu) hi
  exact ⟨_, hready, hhighest, switchTo_eq m cpu _⟩

namespace Picked

variable {n : Id}

section
variable (h : Picked m cpu n m')
include h

theorem sisters (i : Id) :
    m'.sisters i = if i = n then { m.sisters n with state := .running, owner :=
      cpu } else m.sisters i := by
  rw [h.eq]
  exact set_sisters m n i _

theorem current (c : Cpu) : m'.current c = if c = cpu then n else m.current c := by
  rw [h.eq]
  exact update_apply _ _ _ _

theorem online : m'.online = m.online := by
  rw [h.eq]
  rfl

/-- A Sister that is not ready is left alone. -/
theorem other (hi : (m.sisters i).state ≠ .ready) : m'.sisters i = m.sisters i := by
  rw [h.sisters, if_neg]
  rintro rfl
  exact hi h.ready

theorem inv (hv : Vacant m cpu) : Inv m' := by
  refine ⟨hv.toSeats.seat (by rw [h.ready]; decide) (fun hc => hc.1 rfl)
    ⟨rfl, rfl⟩ h.sisters h.current
    fun c => ?_, hv.count.of_idle h.online fun i => ?_⟩
  · rw [h.online]
    by_cases hc : c = cpu
    · simp [hc, hv.online]
    · simp [hc]
  · rw [h.sisters]
    split
    next heq => rw [heq]
    · rfl

end

end Picked

/-! ## What a step may do -/

/-- The state in which the event leaves the Sister that the CPU runs. -/
def restsAs : Event → Option SisterState
  | .sleep _ _ => some .sleeping
  | .block => some .blocked
  | .finish => some .dead
  | _ => none

/-- Who blocks, goes to sleep or finishes does rest; nobody who rests goes on before it is unblocked
or its deadline has passed; and a CPU that switches takes a Sister that is ready, none of those that
stay ready being of a higher level. -/
structure Lawful (m : Network) (e : Cpu × Event) (m' : Network) : Prop where
  rests : ∀ s, restsAs e.2 = some s → m.online e.1 = true → m.works e.1 = true →
    (m'.sisters (m.current e.1)).state = s
  deadline : ∀ ticks now, e.2 = .sleep ticks now → m.online e.1 = true → m.works e.1 = true →
    (m'.sisters (m.current e.1)).wakeAt = (now + ticks) % 2 ^ 64
  blocked : ∀ i, (m.sisters i).state = .blocked → (m'.sisters i).state = .blocked ∨ e.2 = .unblock i
  sleeping : ∀ i, (m.sisters i).state = .sleeping →
    ((m'.sisters i).state = .sleeping ∧ (m'.sisters i).wakeAt = (m.sisters i).wakeAt) ∨
      ∃ now, e.2 = .resched now ∧ (m.sisters i).wakeAt ≤ now
  dead : ∀ i, (m.sisters i).state = .dead → (m'.sisters i).state = .dead
  switches : ∀ c, m.online c = true → m'.current c ≠ m.current c →
    ((m.sisters (m'.current c)).state = .ready ∨
      ∃ now, e.2 = .resched now ∧ (m.sisters (m'.current c)).state = .sleeping ∧
        (m.sisters (m'.current c)).wakeAt ≤ now) ∧
    ∀ i, (m'.sisters i).state = .ready → (m'.sisters i).level ≤ (m'.mine c).level

/-- The Sister rests: it goes on only after something has happened. -/
def Rests (s : Sister) : Prop := s.state = .blocked ∨ s.state = .sleeping ∨ s.state = .dead

/-- A step in which no CPU switches. -/
theorem Lawful.still (hrests : restsAs e.2 = none ∨ m.online e.1 = false ∨ m.works e.1 = false)
    (hcur : ∀ c, m.online c = true → m'.current c = m.current c)
    (hsame : ∀ i, Rests (m.sisters i) → ((m'.sisters i).state = (m.sisters i).state ∧
      (m'.sisters i).wakeAt = (m.sisters i).wakeAt) ∨
        ((m.sisters i).state = .blocked ∧ e.2 = .unblock i)) :
    Lawful m e m' := by
  have hno : ∀ s, restsAs e.2 = some s → m.online e.1 = true → m.works e.1 = true → False := by
    intro s hs hon hworks
    rcases hrests with h | h | h
    · cases h.symm.trans hs
    · cases h.symm.trans hon
    · cases h.symm.trans hworks
  refine ⟨fun s hs hon hw => (hno s hs hon hw).elim, fun ticks now he hon hw => ?_, fun i hi => ?_,
    fun i hi => ?_, fun i hi => ?_, fun c hc hne => absurd (hcur c hc) hne⟩
  · exact (hno .sleeping (by rw [he]; rfl) hon hw).elim
  · rcases hsame i (Or.inl hi) with h | h
    · exact Or.inl (h.1.trans hi)
    · exact Or.inr h.2
  · rcases hsame i (Or.inr (Or.inl hi)) with h | h
    · exact Or.inl ⟨h.1.trans hi, h.2⟩
    · cases hi.symm.trans h.1
  · rcases hsame i (Or.inr (Or.inr hi)) with h | h
    · exact h.1.trans hi
    · cases hi.symm.trans h.1

/-- A step in which the CPU puts its Sister aside, sleepers may be woken, and then the CPU
switches. -/
theorem Picked.lawful {n : Id} (hp : Picked m₁ e.1 n m') (hinv : Inv m) (hon : m.online e.1 = true)
    (hcur : m₁.current = m.current)
    (hrests : ∀ s, restsAs e.2 = some s → (m₁.mine e.1).state = s ∧ s ≠ .ready)
    (hdeadline : ∀ ticks now, e.2 = .sleep ticks now → (m₁.mine e.1).wakeAt =
      (now + ticks) % 2 ^ 64)
    (hothers : ∀ i, i ≠ m.current e.1 → m₁.sisters i = m.sisters i ∨ ∃ now, e.2 = .resched now ∧
      (m.sisters i).state = .sleeping ∧ (m.sisters i).wakeAt ≤ now) :
    Lawful m e m' := by
  -- whoever rests is not the Sister that was running, and was not picked
  have hrest : ∀ i, Rests (m.sisters i) → m'.sisters i = m.sisters i ∨
      ∃ now, e.2 = .resched now ∧ (m.sisters i).state = .sleeping ∧ (m.sisters i).wakeAt ≤ now := by
    intro i hi
    have hne : i ≠ m.current e.1 := by
      rintro rfl
      have hrun := (hinv.current e.1 hon).1
      rcases hi with h | h | h <;> cases hrun.symm.trans h
    rcases hothers i hne with h | h
    · refine Or.inl ((hp.other ?_).trans h)
      rw [h]
      rcases hi with h | h | h <;> rw [h] <;> decide
    · exact Or.inr h
  have hput : ∀ s, restsAs e.2 = some s → m'.sisters (m.current e.1) = m₁.mine e.1 := by
    intro s hs
    obtain ⟨hstate, hne⟩ := hrests s hs
    rw [mine, hcur] at hstate ⊢
    exact hp.other (by rw [hstate]; exact hne)
  refine ⟨fun s hs _ _ => ?_, fun ticks now he _ _ => ?_, fun i hi => ?_, fun i hi => ?_,
    fun i hi => ?_,
    fun c hc hne => ?_⟩
  · rw [hput s hs]
    exact (hrests s hs).1
  · rw [hput .sleeping (by rw [he]; rfl)]
    exact hdeadline ticks now he
  · rcases hrest i (Or.inl hi) with h | ⟨_, -, h, -⟩
    · exact Or.inl (h ▸ hi)
    · cases hi.symm.trans h
  · rcases hrest i (Or.inr (Or.inl hi)) with h | ⟨now, he, -, hdue⟩
    · exact Or.inl (by rw [h]; exact ⟨hi, rfl⟩)
    · exact Or.inr ⟨now, he, hdue⟩
  · rcases hrest i (Or.inr (Or.inr hi)) with h | ⟨_, -, h, -⟩
    · exact h ▸ hi
    · cases hi.symm.trans h
  · rw [hp.current, hcur] at hne
    split at hne
    next hcpu =>
      have hnew : m'.current c = n := by rw [hp.current, if_pos hcpu]
      refine ⟨?_, fun i hi => ?_⟩
      · rw [hnew]
        rcases hothers n (hcpu ▸ hne) with h | h
        · exact Or.inl (h ▸ hp.ready)
        · exact Or.inr h
      · rw [mine, hnew, hp.sisters n, if_pos rfl]
        rw [hp.sisters] at hi ⊢
        split at hi
        · cases hi
        next hin =>
          rw [if_neg hin]
          exact hp.highest i hi
    · exact absurd rfl hne

/-! ## Every step -/

/-- A CPU that comes up finds a free slot. -/
def FindsSlot (m : Network) (e : Cpu × Event) : Prop :=
  e.2 = .becomeIdle → m.online e.1 = false → ∃ i, (m.sisters i).state = .free

theorem allocSlot_free (h : m.allocSlot = some i) : (m.sisters i).state = .free := by
  simpa using List.find?_some h

section
variable (h : Inv m)
include h

theorem Inv.not_idle (hi : (m.sisters i).state ≠ .ready) (hi' : (m.sisters i).state ≠ .running) :
    (m.sisters i).idle = false := by
  cases hidle : (m.sisters i).idle with
  | true => exact ((h.idle i hidle).elim hi hi').elim
  | false => rfl

theorem Inv.set (hkin : Kin (m.sisters i) s) : Inv (m.set i s) := by
  refine h.change rfl rfl fun j => ?_
  rw [set_sisters]
  split
  next heq => exact heq ▸ hkin
  · exact ⟨rfl, Or.inl ⟨rfl, rfl⟩⟩

theorem Inv.spawn (level : Nat) : Inv (m.spawn level false) := by
  rw [Network.spawn]
  split
  · exact h
  next i hi =>
    have hfree := allocSlot_free hi
    have hnot := h.not_idle (by rw [hfree]; decide) (by rw [hfree]; decide)
    exact h.set ⟨hnot.symm, Or.inr ⟨by rw [hfree]; decide, by simp, by simp⟩⟩

theorem Inv.unblockLocked (i : Id) : Inv (m.unblockLocked i) := by
  rw [Network.unblockLocked]
  split
  next hi => exact h.set ⟨rfl, Or.inr ⟨by rw [hi]; decide, by simp, fun _ => rfl⟩⟩
  · exact h

theorem Inv.wakeDueSleepers (now : Nat) : Inv (m.wakeDueSleepers now) := by
  refine h.change rfl rfl fun i => ?_
  rw [Network.wakeDueSleepers]
  dsimp only
  split
  next hs => exact ⟨rfl, Or.inr ⟨by rw [hs.1]; decide, by simp, fun _ => rfl⟩⟩
  · exact ⟨rfl, Or.inl ⟨rfl, rfl⟩⟩

theorem Inv.demote (hon : m.online cpu = true) : Vacant (m.demote cpu) cpu := by
  rw [Network.demote, if_pos (h.current cpu hon).1]
  exact h.aside hon (by simp) rfl fun _ => rfl

theorem Inv.becomeIdle (hoff : m.online cpu = false) (hslot : m.allocSlot = some i) :
    Inv (m.becomeIdle cpu) := by
  have hfree := allocSlot_free hslot
  have hnot := h.not_idle (by rw [hfree]; decide) (by rw [hfree]; decide)
  obtain ⟨s, hs, hsisters, hcurrent, honline⟩ : ∃ s : Sister,
      (s.state = .running ∧ s.owner = cpu ∧ s.idle = true) ∧
      (∀ j, (m.becomeIdle cpu).sisters j = if j = i then s else m.sisters j) ∧
      (∀ c, (m.becomeIdle cpu).current c = if c = cpu then i else m.current c) ∧
      ∀ c, (m.becomeIdle cpu).online c = if c = cpu then true else m.online c := by
    rw [Network.becomeIdle, hslot]
    exact ⟨_, ⟨rfl, rfl, rfl⟩, fun j => set_sisters m i j _, fun c => update_apply _ _ _ _,
      fun c => update_apply _ _ _ _⟩
  refine ⟨h.toSeats.seat (by rw [hfree]; decide) (by rw [hoff]; decide)
    ⟨hs.1, hs.2.1⟩ hsisters hcurrent
    fun c => ?_, ?_⟩
  · rw [honline]
    by_cases hc : c = cpu
    · simp [hc]
    · simp [hc]
  · -- one more of each
    have hidles : (Finset.univ.filter fun j => ((m.becomeIdle cpu).sisters j).idle = true) =
        insert i (Finset.univ.filter fun j => (m.sisters j).idle = true) := by
      ext j
      rw [Finset.mem_filter, hsisters]
      by_cases hj : j = i
      · simp [hj, hs.2.2]
      · simp [hj]
    have honlines : (Finset.univ.filter fun c => (m.becomeIdle cpu).online c = true) =
        insert cpu (Finset.univ.filter fun c => m.online c = true) := by
      ext c
      rw [Finset.mem_filter, honline]
      by_cases hc : c = cpu
      · simp [hc]
      · simp [hc]
    rw [Counted, hidles, honlines, Finset.card_insert_of_notMem (by simp [hnot]),
      Finset.card_insert_of_notMem (by simp [hoff]), show _ = _ from h.count]

/-- The Sister that the CPU runs is put aside, and the CPU switches. -/
theorem Inv.rest (hon : m.online e.1 = true) {rest : SisterState}
    (hrests : restsAs e.2 = some rest) (hs : s.state = rest)
    (hrest : rest ≠ .running ∧ rest ≠ .ready)
    (hidle : s.idle = (m.mine e.1).idle) (hworks : m.works e.1 = true)
    (hdeadline : ∀ ticks now, e.2 = .sleep ticks now → s.wakeAt = (now + ticks) % 2 ^ 64) :
    Inv ((m.set (m.current e.1) s).switchAway e.1) ∧
      Lawful m e ((m.set (m.current e.1) s).switchAway e.1) := by
  have hmine : (m.mine e.1).idle = false := by simpa [works] using hworks
  have hvacant : Vacant (m.set (m.current e.1) s) e.1 :=
    h.aside hon (by rw [hs]; exact hrest.1) hidle
      fun htrue => nomatch (hidle.trans hmine).symm.trans htrue
  obtain ⟨n, hn⟩ := hvacant.picked
  refine ⟨hn.inv hvacant, hn.lawful h hon rfl (fun s' hs' => ?_) (fun ticks now he => ?_)
    fun i hi => ?_⟩
  · rw [mine_set, hs]
    obtain rfl := Option.some.inj (hrests.symm.trans hs')
    exact ⟨rfl, hrest.2⟩
  · rw [mine_set]
    exact hdeadline ticks now he
  · exact Or.inl (by rw [set_sisters, if_neg hi])

section
variable (hon : m.online cpu = true)
include hon

section
variable (hw : m.works cpu = true)
include hw

theorem Inv.sleep (ticks now : Nat) :
    Inv (m.sleep cpu ticks now) ∧ Lawful m (cpu, .sleep ticks now) (m.sleep cpu ticks now) :=
  h.rest (e := (cpu, .sleep ticks now)) hon rfl rfl (by decide) rfl hw
    fun t n he => by cases he; rfl

theorem Inv.blockCurrentLocked :
    Inv (m.blockCurrentLocked cpu) ∧ Lawful m (cpu, .block) (m.blockCurrentLocked cpu) :=
  h.rest (e := (cpu, .block)) hon rfl rfl (by decide) rfl hw nofun

theorem Inv.sisterFinish :
    Inv (m.sisterFinish cpu) ∧ Lawful m (cpu, .finish) (m.sisterFinish cpu) :=
  h.rest (e := (cpu, .finish)) hon rfl rfl (by decide) rfl hw nofun

end

theorem Inv.yield : Inv (m.yield cpu) ∧ Lawful m (cpu, .yield) (m.yield cpu) := by
  have hvacant := h.demote hon
  obtain ⟨n, hn⟩ := hvacant.picked
  have hdemote : m.demote cpu = m.set (m.current cpu) { m.mine cpu with state := .ready } := by
    rw [Network.demote, if_pos (h.current cpu hon).1]
    rfl
  refine ⟨hn.inv hvacant, Picked.lawful hn h hon ?_ ?_ ?_ ?_⟩
  · rw [hdemote]
    rfl
  · exact fun s hs => absurd hs (by simp [restsAs])
  · exact nofun
  · exact fun i hi => Or.inl (by rw [hdemote, set_sisters, if_neg hi])

theorem Inv.resched (now : Nat) :
    Inv (m.resched cpu now) ∧ Lawful m (cpu, .resched now) (m.resched cpu now) := by
  have hwake := h.wakeDueSleepers now
  have hvacant : Vacant ((m.wakeDueSleepers now).demote cpu) cpu := hwake.demote hon
  obtain ⟨n, hn⟩ := hvacant.picked
  have hdemote : (m.wakeDueSleepers now).demote cpu =
      (m.wakeDueSleepers now).set (m.current cpu) { (m.wakeDueSleepers now).mine cpu with state :=
        .ready } := by
    rw [Network.demote, if_pos (hwake.current cpu hon).1]
    rfl
  refine ⟨hn.inv hvacant, Picked.lawful hn h hon ?_ ?_ ?_ ?_⟩
  · rw [hdemote]
    rfl
  · exact fun s hs => absurd hs (by simp [restsAs])
  · exact nofun
  · intro i hi
    rw [hdemote, set_sisters, if_neg hi, Network.wakeDueSleepers]
    dsimp only
    split
    next hs => exact Or.inr ⟨now, rfl, hs⟩
    · exact Or.inl rfl

end

end

theorem Lawful.refl (m : Network)
    (hrests : restsAs e.2 = none ∨ m.online e.1 = false ∨ m.works e.1 = false) : Lawful m e m :=
  .still hrests (fun _ _ => rfl) fun _ _ => Or.inl ⟨rfl, rfl⟩

/-- Only one Sister is written, and it does not rest, or is unblocked. -/
theorem Lawful.set (hrests : restsAs e.2 = none)
    (hi : ¬ Rests (m.sisters i) ∨ (m.sisters i).state = .blocked ∧ e.2 = .unblock i) :
    Lawful m e (m.set i s) := by
  refine .still (Or.inl hrests) (fun _ _ => rfl) fun j hj => ?_
  rw [set_sisters]
  split
  next heq =>
    subst heq
    exact Or.inr (hi.resolve_left fun hno => hno hj)
  · exact Or.inl ⟨rfl, rfl⟩

theorem Inv.level (h : Inv m) (i : Id) (level : Nat) :
    Inv (m.set i { m.sisters i with level := level }) :=
  h.set ⟨rfl, Or.inl ⟨rfl, rfl⟩⟩

/-- Who rests may be raised or lowered, and rests on. -/
theorem Lawful.level (hrests : restsAs e.2 = none) (i : Id) (level : Nat) :
    Lawful m e (m.set i { m.sisters i with level := level }) := by
  refine .still (Or.inl hrests) (fun _ _ => rfl) fun j _ => Or.inl ?_
  rw [set_sisters]
  split
  next heq =>
    rw [heq]
    exact ⟨rfl, rfl⟩
  · exact ⟨rfl, rfl⟩

/-- **Every step.**  The invariant is kept, and the step does only what it may. -/
theorem Inv.step (h : Inv m) (hslot : m.FindsSlot e) : Inv (m.step e) ∧ Lawful m e (m.step e) := by
  obtain ⟨cpu, ev⟩ := e
  cases hon : m.online cpu with
  | false =>
    cases ev with
    | becomeIdle =>
      obtain ⟨j, hj⟩ := hslot rfl hon
      have hsome : m.allocSlot.isSome = true :=
        List.find?_isSome.2 ⟨j, List.mem_finRange j, decide_eq_true hj⟩
      obtain ⟨i, hi⟩ := Option.isSome_iff_exists.1 hsome
      have hstep : m.step (cpu, .becomeIdle) = m.becomeIdle cpu := by simp only [step, hon]
      rw [hstep]
      refine ⟨h.becomeIdle hon hi, .still (Or.inl rfl) (fun c hc => ?_) fun k hk => Or.inl ?_⟩
      · rw [Network.becomeIdle, hi]
        exact update_of_ne (fun heq => nomatch (heq ▸ hc).symm.trans hon) _ _
      · have hne : k ≠ i := fun heq => by
          have hfree := allocSlot_free hi
          rw [← heq] at hfree
          rcases hk with hk | hk | hk <;> cases hfree.symm.trans hk
        rw [Network.becomeIdle, hi]
        rw [set_sisters, if_neg hne]
        exact ⟨rfl, rfl⟩
    | _ =>
      simp only [step, hon]
      exact ⟨h, .refl m (Or.inr (Or.inl hon))⟩
  | true =>
    cases ev with
    | spawn level =>
      simp only [step, hon]
      refine ⟨h.spawn level, ?_⟩
      rw [Network.spawn]
      split
      · exact .refl m (Or.inl rfl)
      next i hi =>
        refine .set rfl (Or.inl ?_)
        rw [Rests, allocSlot_free hi]
        decide
    | becomeIdle =>
      simp only [step, hon]
      exact ⟨h, .refl m (Or.inl rfl)⟩
    | yield =>
      simp only [step, hon]
      exact h.yield hon
    | sleep ticks now =>
      simp only [step, hon]
      split
      next hw => exact h.sleep hon hw ticks now
      next hw => exact ⟨h, .refl m (Or.inr (Or.inr (by simpa using hw)))⟩
    | block =>
      simp only [step, hon]
      split
      next hw => exact h.blockCurrentLocked hon hw
      next hw => exact ⟨h, .refl m (Or.inr (Or.inr (by simpa using hw)))⟩
    | unblock i =>
      simp only [step, hon]
      refine ⟨h.unblockLocked i, ?_⟩
      rw [Network.unblockLocked]
      split
      next hi => exact .set rfl (Or.inr ⟨hi, rfl⟩)
      · exact .refl m (Or.inl rfl)
    | resched now =>
      simp only [step, hon]
      exact h.resched hon now
    | finish =>
      simp only [step, hon]
      split
      next hw => exact h.sisterFinish hon hw
      next hw => exact ⟨h, .refl m (Or.inr (Or.inr (by simpa using hw)))⟩
    | levelUpper i level =>
      simp only [step, hon]
      rw [levelUpper]
      split
      · exact ⟨h.level i level, .level rfl i level⟩
      · exact ⟨h, .refl m (Or.inl rfl)⟩
    | levelRestore i =>
      simp only [step, hon]
      exact ⟨h.level i _, .level rfl i _⟩

end Network

open Network in
/-- The kernel starts with the shell running on the first CPU and one idle Sister ready. -/
theorem init_inv : Inv init := by
  refine ⟨⟨?_, ?_, ?_⟩, ?_⟩
  · decide +kernel
  · decide +kernel
  · decide +kernel
  · rw [Counted]
    decide +kernel

/-! ## Runs -/

namespace Network

/-- Each CPU that is up runs a Sister that is marked as running there, no two run the same one, and
a Sister that is marked as running is the current one of its owner. -/
structure Consistent (m : Network) : Prop where
  current : ∀ c, m.online c = true → (m.mine c).state = .running ∧ (m.mine c).owner = c
  apart : ∀ c c', m.online c = true → m.online c' = true → m.current c = m.current c' → c = c'
  running : ∀ i, (m.sisters i).state = .running →
    m.online (m.sisters i).owner = true ∧ m.current (m.sisters i).owner = i

theorem Inv.consistent {m : Network} (h : Inv m) : Consistent m :=
    ⟨h.current, fun _ _ => h.current_inj, h.running⟩

end Network

open Network Traces in
/-- **Main theorem.**  In every run from boot in which each CPU that comes up finds a free slot, the
CPUs and the table agree in every state, and every step does only what it may: who rests is not
continued before it was unblocked or its deadline has passed, and a CPU that switches takes a ready
Sister of the highest level. -/
theorem schedules_lawfully (es : List (Cpu × Event)) (h : EachStep step FindsSlot init es) :
    Always step Consistent init es ∧
      EachStep step (fun m e => Lawful m e (m.step e)) init es :=
  ⟨Always.of_invariant (fun _ hm => hm.consistent) (fun _ _ hm hslot => (hm.step hslot).1)
    init_inv h,
    EachStep.of_invariant (fun _ _ hm hslot => (hm.step hslot).2)
      (fun _ _ hm hslot => (hm.step hslot).1) init_inv h⟩

/-- A second CPU comes up and takes a thread of the kernel, which blocks, is unblocked and goes
on. -/
def blockedAndBack : List (Cpu × Event) :=
  [(0, .spawn 2), (1, .becomeIdle), (1, .resched 1), (1, .block), (0, .unblock 2), (1, .yield)]

theorem blockedAndBack_lawful : Traces.Always Network.step Network.Consistent init blockedAndBack ∧
    Traces.EachStep Network.step (fun m e => Network.Lawful m e (m.step e)) init
      blockedAndBack := by
  refine schedules_lawfully blockedAndBack ?_
  refine ⟨?_, ?_, ?_, ?_, ?_, ?_, trivial⟩
  · exact nofun
  · exact fun _ _ => ⟨⟨3, by decide⟩, by decide +kernel⟩
  · exact nofun
  · exact nofun
  · exact nofun
  · exact nofun

end IndexOS.Misaka
