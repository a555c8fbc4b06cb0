import IndexOS.Reality.Isolation
import Mathlib.Data.Int.CardIntervalMod

/-!
# The kernel's tables, and tables that stay apart

Every address space starts as a copy of the kernel's L1, so its walks may come across the kernel's
own tables.  `ensure_l3_entry` refuses to descend into them, whatever the address, and every table
below an entry of the process's own comes from the allocator.  So the kernel's tables are never
written or given back, two address spaces have no table in common, and an L3 entry maps a page of
the allocator or nothing.

One thing can break this: a counter of 16 bits.  `pr2_fork` counts a page once for every address of
a region that leads to its slot, and addresses that differ by 2 ^ 39 lead to the same slot.  A
region of 2 ^ 55 bytes adds 2 ^ 16 to the counter of its first page, which is nothing.

* `KernelSafe` — the property, and `kernelSafe_run` — it holds in every run in which no fork lets a
  counter run over (`Bounded`).
* `confined_run` — then no page from outside the allocator is ever touched or mapped.
* `forkAll_spun` — the walk over the large region, and `wrap_shares_table` — what can follow from
  it: a page that is still mapped becomes an L1 table, and its owner writes an entry into it.
-/

set_option autoImplicit false

namespace IndexOS.Reality

open List Machine
open TreeDiagram (kPageSize add64 alignUp alignDown)

variable {prot : UInt8} {a1 a2 a3 b1 b2 b3 x : Nat}

/-- What user paging may not touch, in a machine that was booted as `boot`. -/
structure KernelSafe (boot m : Machine) : Prop where
  kernelL1 : m.kernelL1 = boot.kernelL1
  untouched : ∀ f, KernelTable boot f → m.mem f = boot.mem f ∧ f ∉ m.pool
  disjoint : ∀ s t f, s ≠ t → TableOf m s f → ¬ TableOf m t f
  entries : ∀ s q, leaf m s q = 0 ∨ ∃ f prot, leaf m s q = pageEntry f prot ∧ f ∈ boot.pool

/-- The condition on a step. -/
def Bounded (m : Machine) : Op → Prop
  | .fork s => NoWrap m s
  | _ => True

variable {G : Ground} {m : Machine} {role : Nat → Role}

theorem Bounded.stepOk (hex : ¬ G.exact) (hexcl : ¬ G.excl) (m : Machine) (role : Nat → Role)
    (op : Op) (_ : Inv G m role) (h : Bounded m op) : StepOk G m op := by
  cases op with
  | fork s => exact ⟨h, fun hexact => absurd hexact hex⟩
  | mprotect s va len prot => exact fun hX => absurd hX hexcl
  | _ => trivial

theorem Inv.kernelSafe (I : Inv G m role) (hboot : Booted G.boot) : KernelSafe G.boot m := by
  refine ⟨I.kernelL1, fun f hf => ?_, fun s t f hst hs ht => ?_, fun s q => ?_⟩
  · have hout := hboot.kernel f hf
    refine ⟨I.untouched f hout, fun hmem => ?_⟩
    have hfree := (I.pool_iff f).1 hmem
    rw [(I.outside_iff f).2 hout] at hfree
    cases hfree
  · exact hst ((I.role_of_table hs).unique (I.role_of_table ht))
  · rcases I.shape.leaf_cases s q with hzero | ⟨f, prot, he, hf⟩
    · exact .inl hzero
    · refine .inr ⟨f, prot, he, ?_⟩
      by_contra hout
      rw [(I.outside_iff f).2 hout] at hf
      cases hf

/-- **Main theorem.**  In a run in which no fork lets a counter run over, every machine that is
reached leaves the kernel's tables alone and keeps the tables of the address spaces apart. -/
theorem kernelSafe_run (boot : Machine) (hboot : Booted boot) (ops : List Op)
    (hrun : RunMeets Bounded boot ops) : KernelSafe boot (run boot ops) := by
  obtain ⟨role, I⟩ :=
    run_inv (G := ⟨boot, False, False⟩) False.elim (Bounded.stepOk id id) hboot.inv hrun
  exact I.kernelSafe hboot

instance (m : Machine) : (op : Op) → Decidable (Bounded m op)
  | .fork s => inferInstanceAs (Decidable (NoWrap m s))
  | .create | .addVma .. | .handleFault .. | .prefaultRange .. | .writeUser .. | .mprotect ..
  | .removeVmaRange .. | .destroy _ | .store .. => isTrue trivial

theorem kernelSafe_run_forkOnce :
    RunMeets Bounded smallMachine forkOnce ∧ KernelSafe smallMachine
      (run smallMachine forkOnce) := by
  have hrun : RunMeets Bounded smallMachine forkOnce := by decide +kernel
  exact ⟨hrun, kernelSafe_run smallMachine smallMachine_booted forkOnce hrun⟩

/-- A page that the allocator does not have at boot is never written, handed out or mapped. -/
theorem confined_run (boot : Machine) (hboot : Booted boot) (ops : List Op)
    (hrun : RunMeets Bounded boot ops)
    {f : Nat} (hf : f ∉ boot.pool) : (run boot ops).mem f = boot.mem f ∧ f ∉ (run boot ops).pool ∧
      ∀ s q, mapped (run boot ops) s q ≠ some f := by
  obtain ⟨role, I⟩ :=
    run_inv (G := ⟨boot, False, False⟩) False.elim (Bounded.stepOk id id) hboot.inv hrun
  have hout := (I.outside_iff f).2 hf
  refine ⟨I.untouched f hf, fun hmem => ?_, fun s q hq => ?_⟩
  · cases hout.symm.trans ((I.pool_iff f).1 hmem)
  · cases hout.symm.trans (I.role_of_held (p := (s, q)) hq)

theorem confined_run_forkOnce : (run smallMachine forkOnce).mem 0 = smallMachine.mem 0 :=
  (confined_run _ smallMachine_booted _ (by decide +kernel) (by decide)).1

/-! ## Addresses that lead to one slot -/

theorem slotOf_eq_zero (va : Nat) : slotOf va = (0, 0, 0) ↔ va / 4096 % 2 ^ 27 = 0 := by
  unfold slotOf l1Index l2Index l3Index
  simp only [Prod.mk.injEq, Fin.ext_iff, Fin.ofNat]
  omega

/-- The pages that lead to a slot, counted by their index. -/
theorem visits_pagesFrom (prot : UInt8) (q : Slot) (n : Nat) : ∀ va,
    visits ((pagesFrom n va).map (·, prot)) q = Nat.count (fun i => slotOf (va + i * kPageSize) = q)
      n := by
  induction n with
  | zero => exact fun va => rfl
  | succ n ih =>
    intro va
    have hnext : ∀ i, va + kPageSize + i * kPageSize = va + (i + 1) * kPageSize := fun i => by
      rw [Nat.add_mul, Nat.one_mul, Nat.add_right_comm, Nat.add_assoc]
    rw [pagesFrom, map_cons, visits_cons, ih, Nat.count_succ', Nat.zero_mul, Nat.add_zero]
    simp only [hnext]

/-- A region of `n` times 2 ^ 39 bytes meets the first slot `n` times. -/
theorem visits_blocks (prot : UInt8) (n : Nat) :
    visits ((pagesFrom (n * 2 ^ 27) 0).map (·, prot)) (0, 0, 0) = n := by
  have hslot : ∀ i, slotOf (0 + i * kPageSize) = (0, 0, 0) ↔ i ≡ 0 [MOD 2 ^ 27] := fun i => by
    rw [slotOf_eq_zero, Nat.ModEq, Nat.zero_add, kPageSize, Nat.mul_div_cancel _ (by decide),
      Nat.zero_mod]
  rw [visits_pagesFrom]
  simp only [hslot]
  rw [Nat.count_modEq_card _ (by decide), Nat.mul_mod_left, if_neg (by decide),
    Nat.mul_div_cancel _ (by decide), Nat.add_zero]

/-! ## A counter that runs over -/

theorem setWord_self (m : Machine) (f : Nat) (i : Fin 512) {w : Nat} (h : m.mem f i = w) :
    m.setWord f i w = m := by
  have hmem : (m.setWord f i w).mem = m.mem := by
    funext g j
    by_cases hg : g = f
    · subst hg
      by_cases hj : j = i
      · subst hj
        simp [setWord, setPage, h]
      · simp [setWord, setPage, hj]
    · simp [setWord, setPage, hg]
  exact congrArg (fun mem => { m with mem := mem }) hmem

/-- The tables `l1`, `l2` and `l3` lead to one slot, and there is no page for another table. -/
structure OnlyFirst (m : Machine) (l1 l2 l3 : Nat) : Prop where
  full : m.pool = []
  kernel : ∀ i, m.mem m.kernelL1 i = 0
  first : ∀ i, m.mem l1 i = if i = 0 then tableEntry l2 else 0
  second : ∀ j, m.mem l2 j = if j = 0 then tableEntry l3 else 0
  small : l2 < 2 ^ 36 ∧ l3 < 2 ^ 36

variable {m : Machine}

theorem tableFor_full (hfull : m.pool = []) {t g : Nat} (hg : g < 2 ^ 36)
    (ht : ∀ i, m.mem t i = if i = 0 then tableEntry g else 0) (i : Fin 512) :
    tableFor m t i = (m, if i = 0 then some g else none) := by
  unfold tableFor
  rw [ht i]
  by_cases hi : i = 0
  · rw [if_pos hi, if_pos (links_tableEntry g), if_pos hi, frameOf_tableEntry hg]
  · rw [if_neg hi, if_neg not_links_zero, if_neg hi]
    unfold allocPageZeroed
    rw [hfull]

theorem ensureL3_full {l1 l2 l3 : Nat} (h : OnlyFirst m l1 l2 l3) (va : Nat) :
    ensureL3 m l1 va = (m, if l1Index va = 0 ∧ l2Index va = 0 then some l3 else none) := by
  have hkernel : ¬ SharesKernel m l1 va := by
    rintro ⟨hlinks, heq⟩
    rw [heq, h.kernel] at hlinks
    exact not_links_zero hlinks
  unfold ensureL3
  rw [if_neg hkernel, tableFor_full h.full h.small.1 h.first]
  by_cases h1 : l1Index va = 0
  · simp only [h1, true_and]
    exact tableFor_full h.full h.small.2 h.second _
  · rw [if_neg h1, if_neg (fun hc => h1 hc.1)]

/-- What the walk of a fork meets over and over: the two L3 tables map the page `x` read-only at the
first slot and nothing else. -/
structure Spinning (m : Machine) (a1 a2 a3 b1 b2 b3 x : Nat) (prot : UInt8) : Prop where
  parent : OnlyFirst m a1 a2 a3
  child : OnlyFirst m b1 b2 b3
  third : ∀ k, m.mem a3 k = if k = 0 then pageEntry x (prot &&& ~~~ kVmaProtW) else 0
  shared : m.mem b3 0 = pageEntry x (prot &&& ~~~ kVmaProtW)
  small : x < 2 ^ 36
  tracked : Tracked x

section
variable (h : Spinning m a1 a2 a3 b1 b2 b3 x prot)
include h

/-- The same machine with another count. -/
theorem Spinning.setRefs (n : Nat) :
    Spinning (m.setRefs x n) a1 a2 a3 b1 b2 b3 x prot :=
  ⟨⟨h.parent.full, h.parent.kernel, h.parent.first, h.parent.second, h.parent.small⟩,
    ⟨h.child.full, h.child.kernel, h.child.first, h.child.second, h.child.small⟩,
    h.third, h.shared, h.small, h.tracked⟩

/-- One page of the walk counts the page `x` when it leads to the first slot, and does nothing
else. -/
theorem forkPage_spun (va : Nat) :
    forkPage a1 b1 prot m va =
      (if slotOf va = (0, 0, 0) then m.setRefs x ((m.refs x + 1) % 2 ^ 16) else m, true) := by
  have hslot : slotOf va = (0, 0, 0) ↔ (l1Index va = 0 ∧ l2Index va = 0) ∧ l3Index va = 0 := by
    simp [slotOf, and_assoc]
  unfold forkPage
  rw [ensureL3_full h.parent]
  by_cases htables : l1Index va = 0 ∧ l2Index va = 0
  · rw [if_pos htables]
    simp only [h.third, hslot, htables, true_and]
    by_cases h3 : l3Index va = 0
    · have hparent : m.mem a3 0 = pageEntry x (prot &&& ~~~ kVmaProtW) := h.third 0
      rw [if_pos h3, if_pos (links_pageEntry x _), frameOf_pageEntry h.small, if_pos h3, h3,
        setWord_self m a3 0 hparent, ensureL3_full h.child, if_pos htables]
      simp only
      rw [setWord_self m b3 0 h.shared]
      unfold pageRef
      rw [if_pos h.tracked]
    · rw [if_neg h3, if_neg not_links_zero, if_neg h3]
  · rw [if_neg htables, if_neg (fun hc => htables (hslot.1 hc).1)]

end

theorem setRefs_self (m : Machine) {f n : Nat} (h : m.refs f = n) : m.setRefs f n = m := by
  have hrefs : (m.setRefs f n).refs = m.refs := by
    funext g
    by_cases hg : g = f <;> simp [setRefs, hg, h]
  exact congrArg (fun refs => { m with refs := refs }) hrefs

theorem setRefs_setRefs (m : Machine) (f n n' : Nat) :
    (m.setRefs f n).setRefs f n' = m.setRefs f n' := by
  have hrefs : ((m.setRefs f n).setRefs f n').refs = (m.setRefs f n').refs := by
    funext g
    by_cases hg : g = f <;> simp [setRefs, hg]
  exact congrArg (fun refs => { m with refs := refs }) hrefs

/-- The whole walk: the counter goes up by the number of times the first slot is met, modulo
2 ^ 16. -/
theorem forkAll_spun (vas : List Nat) :
    ∀ (m : Machine) (n : Nat), Spinning m a1 a2 a3 b1 b2 b3 x prot →
      forkAll a1 b1 (vas.map (·, prot)) (m.setRefs x (n % 2 ^ 16)) =
        (m.setRefs x ((n + visits (vas.map (·, prot)) (0, 0, 0)) % 2 ^ 16), true) := by
  induction vas with
  | nil => exact fun m n _ => rfl
  | cons va vas ih =>
    intro m n h
    have hself : (m.setRefs x (n % 2 ^ 16)).refs x = n % 2 ^ 16 := if_pos rfl
    rw [map_cons, visits_cons, forkAll, forkPage_spun (h.setRefs _), hself, setRefs_setRefs]
    simp only
    by_cases hslot : slotOf va = (0, 0, 0)
    · have hmod : (n % 2 ^ 16 + 1) % 2 ^ 16 = (n + 1) % 2 ^ 16 := by omega
      rw [if_pos hslot, if_pos hslot, hmod, ih m (n + 1) h]
      have hsum : n + 1 + visits (vas.map (·, prot)) (0, 0, 0) =
          n + (visits (vas.map (·, prot)) (0, 0, 0) + 1) := by omega
      rw [hsum]
    · rw [if_neg hslot, if_neg hslot, ih m n h, Nat.add_zero]

/-! ## The run -/

/-- A machine with seven pages to hand out. -/
def wrapMachine : Machine := { smallMachine with pool := (range 7).map (0x40001 + ·) }

theorem wrapMachine_booted : Booted wrapMachine where
  spaces _ := rfl
  refs _ := rfl
  nodup := by decide
  range := by decide
  kernel f hf := by
    rcases hf with rfl | ⟨i, hi, -⟩
    · decide
    · exact absurd hi not_links_zero

/-- A process with a region of 2 ^ 55 bytes touches its first page. -/
def wideRegion : List Op :=
  [.create, .addVma 0 0 (2 ^ 55) 3 .anon 0 0 0 0 none, .handleFault noFiles 0 0]

/-- Its child gives the page back, a new address space gets it as its L1 table, and the process
writes an entry for its own L2 table into it. -/
def afterFork : List Op :=
  [.removeVmaRange 1 0 4096, .create, .writeUser noFiles 0 0 [0x03, 0x20, 0x00, 0x40, 0, 0, 0, 0]]

def wide : Space := { ttbr0 := 0x40001, vmas := [Vma.make 0 (2 ^ 55) 3 .anon 0 0 0 0 none] }

/-- The machine with a new address space for the child. -/
def wideCreated : Machine :=
  (((run wrapMachine wideRegion).draw 0x40005 [0x40006, 0x40007]).setPage 0x40005
    (inheritedL1 ((run wrapMachine wideRegion).draw 0x40005 [0x40006, 0x40007]))).setSpace 1
      (some { ttbr0 := 0x40005 })

/-- The machine in which the walk of the fork starts. -/
def wideStart : Machine := wideCreated.setSpace 1 (some { wide with ttbr0 := 0x40005 })

/-- The machine after the first page of the walk, with a count. -/
def spun (n : Nat) : Machine :=
    (forkPage 0x40001 0x40005 3 wideStart 0).1.setRefs 0x40004 (n % 2 ^ 16)

theorem spun_two : forkPage 0x40001 0x40005 3 wideStart 0 = (spun 2, true) := by
  have hok : (forkPage 0x40001 0x40005 3 wideStart 0).2 = true := by decide +kernel
  have hcount : (forkPage 0x40001 0x40005 3 wideStart 0).1.refs 0x40004 =
    2 % 2 ^ 16 := by decide +kernel
  exact Prod.ext (setRefs_self _ hcount).symm hok

theorem spinning_wide :
    Spinning (forkPage 0x40001 0x40005 3 wideStart 0).1 0x40001 0x40002 0x40003 0x40005
      0x40006 0x40007 0x40004 3 where
  parent := ⟨by decide +kernel, by decide +kernel, by decide +kernel, by decide +kernel, by decide⟩
  child := ⟨by decide +kernel, by decide +kernel, by decide +kernel, by decide +kernel, by decide⟩
  third := by decide +kernel
  shared := by decide +kernel
  small := by decide
  tracked := by decide

/-- A walk that meets the first slot 2 ^ 16 times. -/
theorem forkAll_wide (n : Nat) (hn : visits ((pagesFrom n 0).map (·, 3)) (0, 0, 0) = 65536) :
    forkAll 0x40001 0x40005 ((pagesFrom n 0).map (·, 3)) wideStart = (spun 65537, true) := by
  cases n with
  | zero => cases hn
  | succ n =>
    rw [pagesFrom, map_cons, visits_cons, if_pos (by decide)] at hn
    rw [pagesFrom, map_cons, forkAll, spun_two]
    simp only
    unfold spun
    rw [forkAll_spun _ _ 2 spinning_wide]
    have hsum : 2 + visits ((pagesFrom n (0 + kPageSize)).map (·, 3)) (0, 0, 0) = 65537 := by omega
    rw [hsum]

theorem forkPlan_wide (v : Vma) (hv : v.kind ≠ .free) (hprot : v.prot = 3) (hstart : v.start = 0) :
    forkPlan [v] = (pagesFrom (v.fin / kPageSize) 0).map (·, 3) := by
  unfold forkPlan
  rw [flatMap_singleton, if_neg hv, hprot, hstart, Nat.sub_zero]

theorem fork_of_walk {m₁ m₂ : Machine} {s c : SpaceId} {sp : Space} {l1 : Nat}
    (hsp : m.spaces s = some sp) (hcreate : createAddrSpace m = some (c, l1, m₁))
    (hwalk : forkVmas sp.ttbr0 l1 sp.vmas (m₁.setSpace c (some { sp with ttbr0 := l1 })) =
      (m₂, true)) :
    fork m s = (m₂, some c) := by
  unfold fork
  rw [hsp]
  simp only [hcreate, hwalk]

theorem createAddrSpace_wide :
    createAddrSpace (run wrapMachine wideRegion) = some (1, 0x40005, wideCreated) := by
  have hslot : realityAlloc (run wrapMachine wideRegion) = some 1 := by decide +kernel
  unfold createAddrSpace allocPageZeroed
  rw [hslot]
  rfl

/-- The fork succeeds and leaves the count where it was before, with one entry more. -/
theorem fork_wide : fork (run wrapMachine wideRegion) 0 = (spun 65537, some 1) := by
  have hspace : (run wrapMachine wideRegion).spaces 0 = some wide := by decide +kernel
  have hpages : (Vma.make 0 (2 ^ 55) 3 .anon 0 0 0 0 none).fin / kPageSize = 65536 * 2 ^ 27 := by
    decide +kernel
  have hvisits := visits_blocks 3 65536
  rw [← hpages] at hvisits
  have hwalk := forkAll_wide _ hvisits
  rw [← forkPlan_wide _ (by decide) (by decide) (by decide), ← forkVmas_eq] at hwalk
  exact fork_of_walk hspace createAddrSpace_wide hwalk

theorem step_fork (m : Machine) (s : SpaceId) : step m (.fork s) = (fork m s).1 := rfl

theorem run_wide :
    run wrapMachine (wideRegion ++ .fork 0 :: afterFork) = run (spun 65537) afterFork := by
  rw [run_append, run_cons, step_fork, fork_wide]

theorem tableOf_first {s : SpaceId} {f : Nat} (hspace : (m.spaces s).map Space.ttbr0 = some f)
    (hown : Own m f 0) : TableOf m s (frameOf (m.mem f 0)) := by
  obtain ⟨sp, hsp, rfl⟩ := Option.map_eq_some_iff.1 hspace
  exact ⟨sp, hsp, .inr ⟨0, hown, .inl rfl⟩⟩

/-- Two address spaces end up with the same L2 table. -/
theorem wrap_shares_table :
    Booted wrapMachine ∧
      ¬ KernelSafe wrapMachine (run wrapMachine (wideRegion ++ .fork 0 :: afterFork)) := by
  refine ⟨wrapMachine_booted, fun hsafe => ?_⟩
  rw [run_wide] at hsafe
  have hzero := tableOf_first (m := run (spun 65537) afterFork) (s := 0) (f := 0x40001)
    (by decide +kernel) (by decide +kernel)
  have htwo := tableOf_first (m := run (spun 65537) afterFork) (s := 2) (f := 0x40004)
    (by decide +kernel) (by decide +kernel)
  have hsame : frameOf ((run (spun 65537) afterFork).mem 0x40004 0) =
      frameOf ((run (spun 65537) afterFork).mem 0x40001 0) := by decide +kernel
  rw [hsame] at htwo
  exact hsafe.disjoint 0 2 _ (by decide) hzero htwo

end IndexOS.Reality
