import IndexOS.Reality.Faults

/-!
# The end of an address space

`pr2_destroy` walks the tables of an address space from the outside in and gives everything back:
the pages of data lose a reference, the tables go to the allocator.  The tables themselves are not
written, so halfway through they still show entries whose pages are gone.  The proof keeps apart
what the tables show and what is still owed: `Torn` is the state of the walk in which the roles in
`done` have been dealt with, and the ledger is that of the places that have not.

* `Torn.leaf`, `Torn.table`, `TornTo.skip` — one page of data, one table, and places where there is
  nothing;
* `TornTo.foldl`, `TornTo.emptied` — the three nested loops;
* `destroy_spec` — the invariant is kept, and the tables of the address space are free pages.
-/

set_option autoImplicit false

namespace IndexOS.Reality

open List
open Function (update update_of_ne update_self)

variable {G : Ground} {m cur : Machine} {role roleC : Nat → Role} {s : SpaceId}
  {heldC : SpaceId × Slot → Option Nat} {done done' : Role → Prop} {i j k : Fin 512}
  {f l1 l2 l3 : Nat}

/-- The walk through the tables of `s` in the machine `m` has come to `cur` and has dealt with the
roles in `done`. -/
structure Torn (G : Ground) (m : Machine) (role : Nat → Role) (s : SpaceId) (done : Role → Prop)
    (cur : Machine) (roleC : Nat → Role) (heldC : SpaceId × Slot → Option Nat) : Prop where
  mem_eq : cur.mem = m.mem
  spaces_eq : cur.spaces = m.spaces
  kernelL1_eq : cur.kernelL1 = m.kernelL1
  ledger : Ledger G.exact Tracked heldC cur.refs cur.pool (Busy roleC)
  pool_iff : ∀ f, f ∈ cur.pool ↔ roleC f = .free
  held_done : ∀ q, done (.data q) → heldC (s, q) = none
  held_rest : ∀ p, ¬ (p.1 = s ∧ done (.data p.2)) → heldC p = held m p
  table_done : ∀ f, (role f).Fixed → done (role f) → roleC f = .free
  table_rest : ∀ f, (role f).Fixed → ¬ done (role f) → roleC f = role f
  data : ∀ f q, role f = .data q → roleC f = .data q ∨ roleC f = .free
  free : ∀ f, role f = .free → roleC f = .free

def TornTo (G : Ground) (m : Machine) (role : Nat → Role) (s : SpaceId) (done : Role → Prop)
    (cur : Machine) : Prop :=
  ∃ roleC heldC, Torn G m role s done cur roleC heldC

/-- Roles no page has, and slots where nothing is mapped, need no work. -/
theorem Torn.widen (T : Torn G m role s done cur roleC heldC) (hsub : ∀ r, done r → done' r)
    (hnew : ∀ r, done' r → ¬ done r →
      (∀ f, role f = r → ¬ r.Fixed) ∧ ∀ q, r = .data q → held m (s, q) = none) :
    Torn G m role s done' cur roleC heldC where
  mem_eq := T.mem_eq
  spaces_eq := T.spaces_eq
  kernelL1_eq := T.kernelL1_eq
  ledger := T.ledger
  pool_iff := T.pool_iff
  held_done q hq := by
    by_cases hdone : done (.data q)
    · exact T.held_done q hdone
    · rw [T.held_rest (s, q) (fun h => hdone h.2)]
      exact (hnew _ hq hdone).2 q rfl
  held_rest p hp := T.held_rest p (fun h => hp ⟨h.1, hsub _ h.2⟩)
  table_done f hf hdone' := by
    by_cases hdone : done (role f)
    · exact T.table_done f hf hdone
    · exact absurd hf ((hnew _ hdone' hdone).1 f rfl)
  table_rest f hf hdone' := T.table_rest f hf (fun h => hdone' (hsub _ h))
  data := T.data
  free := T.free

theorem TornTo.congr (h : TornTo G m role s done cur) (hiff : ∀ r, done r ↔ done' r) :
    TornTo G m role s done' cur := by
  obtain ⟨roleC, heldC, T⟩ := h
  exact ⟨roleC, heldC, T.widen (fun r => (hiff r).1) (fun r hr hn => absurd ((hiff r).2 hr) hn)⟩

section
variable (T : Torn G m role s done cur roleC heldC)
include T

/-- The page `f` goes back to the pool, and its role is dealt with. -/
theorem Torn.give {cur' : Machine}
    {heldC' : SpaceId × Slot → Option Nat} (hmem : cur'.mem = cur.mem)
    (hspaces : cur'.spaces = cur.spaces)
    (hkernel : cur'.kernelL1 = cur.kernelL1) (hpool : cur'.pool = f :: cur.pool)
    (hledger : Ledger G.exact Tracked heldC' cur'.refs (f :: cur.pool)
      (Busy (update roleC f .free)))
    (hdone : ∀ q, (done (.data q) ∨ .data q = role f) → heldC' (s, q) = none)
    (hrest : ∀ p, ¬ (p.1 = s ∧ (done (.data p.2) ∨ .data p.2 = role f)) → heldC' p = held m p)
    (hunique : ∀ g, (role g).Fixed → role g = role f → g = f) :
    Torn G m role s (fun r => done r ∨ r = role f) cur' (update roleC f .free) heldC' := by
  refine ⟨hmem.trans T.mem_eq, hspaces.trans T.spaces_eq, hkernel.trans T.kernelL1_eq,
    hpool ▸ hledger, ?_, hdone, hrest, ?_, ?_, ?_, ?_⟩
  · intro g
    rw [hpool, mem_cons, T.pool_iff]
    rcases eq_or_ne g f with rfl | hgf
    · simp
    · simp [hgf]
  · intro g hg hd
    rcases eq_or_ne g f with rfl | hgf
    · exact update_self ..
    · rw [update_of_ne hgf]
      exact T.table_done g hg (hd.resolve_right (fun h => hgf (hunique g hg h)))
  · intro g hg hd
    have hgf : g ≠ f := by
      rintro rfl
      exact hd (.inr rfl)
    rw [update_of_ne hgf]
    exact T.table_rest g hg (fun h => hd (.inl h))
  · intro g q hg
    rcases eq_or_ne g f with rfl | hgf
    · exact .inr (update_self ..)
    · rw [update_of_ne hgf]
      exact T.data g q hg
  · intro g hg
    rcases eq_or_ne g f with rfl | hgf
    · exact update_self ..
    · rw [update_of_ne hgf]
      exact T.free g hg

/-- A table is given back. -/
theorem Torn.table (hf : (role f).Fixed)
    (hnot : ¬ done (role f)) (hunique : ∀ g, role g = role f → g = f) :
    Torn G m role s (fun r => done r ∨ r = role f) (freePage cur f) (update roleC f .free)
      heldC := by
  have hrole : roleC f = role f := T.table_rest f hf hnot
  have hidle : ¬ Busy roleC f := by
    rintro ⟨q, hq⟩
    exact hf.2 q (hrole ▸ hq)
  have hbusy : Busy (update roleC f .free) = Busy roleC := by
    funext g
    rcases eq_or_ne g f with rfl | hgf
    · exact propext ⟨fun ⟨q, hq⟩ => by simp at hq, fun h => absurd h hidle⟩
    · simp [Busy, hgf]
  refine T.give rfl rfl rfl rfl ?_ (fun q hq => ?_) (fun p hp => ?_) fun g _ => hunique g
  · rw [hbusy]
    refine T.ledger.push ?_ hidle
    rw [T.pool_iff, hrole]
    exact hf.1
  · exact T.held_done q (hq.resolve_right fun h => hf.2 q h.symm)
  · exact T.held_rest p (fun h => hp ⟨h.1, .inl h.2⟩)

/-- A page of data loses the reference of one slot. -/
theorem Torn.leaf {q : Slot} (hrole : role f = .data q)
    (hf : held m (s, q) = some f) (hnot : ¬ done (.data q)) :
    TornTo G m role s (fun r => done r ∨ r = .data q) (pageUnref cur f) := by
  have hheld : heldC (s, q) = some f := by
    rw [T.held_rest (s, q) (fun h => hnot h.2)]
    exact hf
  have hbusy : Busy roleC f := T.ledger.busy_of_held _ _ hheld
  have hdone : ∀ r, (done (.data r) ∨ Role.data r = .data q) →
      update heldC (s, q) none (s, r) = none := by
    intro r hr
    rcases eq_or_ne r q with rfl | hrq
    · exact update_self ..
    · rw [update_of_ne (fun h => hrq (by simpa using h))]
      exact T.held_done r (hr.resolve_right (fun h => hrq (by simpa using h)))
  have hrest : ∀ p : SpaceId × Slot, ¬ (p.1 = s ∧ (done (.data p.2) ∨ Role.data p.2 = .data q)) →
      update heldC (s, q) none p = held m p := by
    intro p hp
    have hpq : p ≠ (s, q) := by
      rintro rfl
      exact hp ⟨rfl, .inr rfl⟩
    rw [update_of_ne hpq]
    exact T.held_rest p (fun h => hp ⟨h.1, .inl h.2⟩)
  by_cases hlast : Tracked f ∧ cur.refs f = 1
  · obtain ⟨htracked, hone⟩ := hlast
    have hfree : ∀ g, Busy (update roleC f .free) g ↔ Busy roleC g ∧ g ≠ f := by
      intro g
      rcases eq_or_ne g f with rfl | hgf
      · simp [Busy]
      · simp [Busy, hgf]
    have hsub := pageUnref_refs_self cur htracked (by omega)
    have hledger :=
      T.ledger.release hheld htracked hone hfree (fun g hg => pageUnref_refs_ne cur hg) (by omega)
    rw [← hrole] at hdone hrest ⊢
    refine ⟨_, _, T.give (by simp) (by simp) (by simp) (pageUnref_pool_last cur htracked hone)
      hledger hdone hrest ?_⟩
    exact fun g hg heq => absurd (heq.trans hrole) (hg.2 q)
  · have hkeep : Tracked f → cur.refs f ≠ 1 := fun ht hone => hlast ⟨ht, hone⟩
    have hpos : Tracked f → 0 < cur.refs f := fun ht => T.ledger.refs_busy f ht hbusy
    have hpool : (pageUnref cur f).pool = cur.pool := pageUnref_pool_keep cur hkeep
    refine ⟨roleC, update heldC (s, q) none, by simp [T.mem_eq], by simp [T.spaces_eq],
      by simp [T.kernelL1_eq], ?_, by rw [hpool]; exact T.pool_iff, hdone, hrest, ?_, ?_, T.data,
      T.free⟩
    · rw [hpool]
      refine T.ledger.drop hheld ?_ (fun g hg => pageUnref_refs_ne cur hg)
        (fun ht => pageUnref_refs_self cur ht (hpos ht))
      intro ht
      have hne := hkeep ht
      have hgt := hpos ht
      omega
    · intro g hg hd
      exact T.table_done g hg (hd.resolve_right (hg.2 q))
    · intro g hg hd
      exact T.table_rest g hg (fun h => hd (.inl h))

end

/-! ## The loops -/

/-- The roles below one entry of an L2 table. -/
def BelowL2 (s : SpaceId) (i j : Fin 512) (r : Role) : Prop :=
  (∃ k, r = .data (i, j, k)) ∨ r = .low s i j

/-- The roles below one entry of an L1 table. -/
def BelowL1 (s : SpaceId) (i : Fin 512) (r : Role) : Prop := (∃ j, BelowL2 s i j r) ∨ r = .mid s i

/-- Where there is nothing below a place there is nothing to do. -/
theorem TornTo.skip (hT : TornTo G m role s done cur) {B : Role → Prop}
    (htable : ∀ f r, B r → r.Fixed → role f ≠ r) (hheld : ∀ q, B (.data q) → held m (s, q) = none) :
    TornTo G m role s (fun r => done r ∨ B r) cur := by
  obtain ⟨roleC, heldC, T⟩ := hT
  refine ⟨roleC, heldC, T.widen (fun r => .inl) fun r hr hnd => ?_⟩
  have hB := hr.resolve_left hnd
  exact ⟨fun f hf hfixed => htable f r hB hfixed hf, fun q hq => hheld q (hq ▸ hB)⟩

/-- A loop over places with different roles below them. -/
theorem TornTo.foldl {ι : Type} {B : ι → Role → Prop} {f : Machine → ι → Machine}
    (hone : ∀ a done cur, (∀ r, B a r → ¬ done r) → TornTo G m role s done cur →
      TornTo G m role s (fun r => done r ∨ B a r) (f cur a))
    (hapart : ∀ {a a' r}, B a r → B a' r → a = a') (l : List ι) :
    ∀ (done : Role → Prop) (cur : Machine),
    l.Nodup → (∀ a ∈ l, ∀ r, B a r → ¬ done r) → TornTo G m role s done cur →
      TornTo G m role s (fun r => done r ∨ ∃ a ∈ l, B a r) (l.foldl f cur) := by
  induction l with
  | nil => exact fun done cur _ _ hT => hT.congr (by simp)
  | cons a l ih =>
    intro done cur hnodup hnot hT
    obtain ⟨ha, hnodup⟩ := nodup_cons.1 hnodup
    refine (ih _ _ hnodup ?_ (hone a done cur (hnot a (mem_cons_self ..)) hT)).congr fun r => ?_
    · rintro a' ha' r hr (hdone | hbelow)
      · exact hnot a' (mem_cons_of_mem _ ha') r hr hdone
      · exact ha (hapart hr hbelow ▸ ha')
    · simp only [mem_cons, exists_eq_or_imp, or_assoc]

/-- All entries of a table are dealt with, and then the table. -/
theorem TornTo.emptied {B : Fin 512 → Role → Prop}
    (hT : TornTo G m role s (fun r => done r ∨ ∃ a ∈ finRange 512, B a r) cur) (hf : (role f).Fixed)
    (hunique : ∀ g, role g = role f → g = f) (hdone : ¬ done (role f)) (hB : ∀ a, ¬ B a (role f)) :
    TornTo G m role s (fun r => done r ∨ (∃ a, B a r) ∨ r = role f) (freePage cur f) := by
  obtain ⟨roleC, heldC, T⟩ := hT
  have hfresh : ¬ (done (role f) ∨ ∃ a ∈ finRange 512, B a (role f)) := by
    rintro (h | ⟨a, -, h⟩)
    · exact hdone h
    · exact hB a h
  refine TornTo.congr ⟨_, _, T.table hf hfresh hunique⟩ fun r => ?_
  simp only [mem_finRange, true_and, or_assoc]

theorem TornTo.mem_eq (hT : TornTo G m role s done cur) : cur.mem = m.mem :=
  hT.elim fun _ h => h.elim fun _ T => T.mem_eq

theorem TornTo.kernelL1_eq (hT : TornTo G m role s done cur) : cur.kernelL1 = m.kernelL1 :=
  hT.elim fun _ h => h.elim fun _ T => T.kernelL1_eq

theorem held_eq_none (h : leaf m s (i, j, k) = 0) : held m (s, (i, j, k)) = none := by
  unfold held mapped
  rw [h]
  rfl

variable (I : Inv G m role)
include I

theorem releaseLeaf_torn (hl3 : role l3 = .low s i j)
    (hnot : ¬ done (.data (i, j, k))) (hT : TornTo G m role s done cur) :
    TornTo G m role s (fun r => done r ∨ r = .data (i, j, k)) (releaseLeaf l3 cur k) := by
  have hleaf := I.shape.leaf_low hl3 k
  unfold releaseLeaf
  rw [hT.mem_eq]
  rcases I.shape.lowEntry s i j k l3 hl3 with hzero | ⟨f, prot, he, hf⟩
  · rw [hzero]
    refine hT.skip (fun f r hr hfixed => ?_) fun q hq => ?_
    · exact absurd hr (hfixed.2 _)
    · cases hq
      exact held_eq_none (hleaf.trans hzero)
  · obtain ⟨roleC, heldC, T⟩ := hT
    rw [he, if_pos (links_pageEntry f prot), frameOf_pageEntry (I.small hf)]
    exact T.leaf hf (I.shape.mapped_of_leaf (by rw [hleaf]; exact he) hf) hnot

theorem releaseL3_torn (hl2 : role l2 = .mid s i)
    (hnot : ∀ r, BelowL2 s i j r → ¬ done r) (hT : TornTo G m role s done cur) :
    TornTo G m role s (fun r => done r ∨ BelowL2 s i j r) (releaseL3 l2 cur j) := by
  unfold releaseL3
  rw [hT.mem_eq]
  rcases I.shape.midEntry s i j l2 hl2 with hzero | ⟨l3, he, hl3⟩
  · -- There is no L3 table, so there is nothing below the entry.
    have hnone : ∀ h, role h ≠ .low s i j := by
      intro h hh
      obtain ⟨g, hg, hge⟩ := I.shape.lowParent s i j h hh
      rw [I.shape.mid_unique hg hl2, hzero] at hge
      exact absurd (hge ▸ links_tableEntry h) not_links_zero
    rw [hzero]
    refine hT.skip ?_ ?_
    · rintro f r (⟨k, rfl⟩ | rfl) hfixed
      · exact absurd rfl (hfixed.2 _)
      · exact hnone f
    · rintro q (⟨k, hq⟩ | hq) <;> cases hq
      exact held_eq_none (I.shape.leaf_eq_zero hnone)
  · have hframe : frameOf (tableEntry l3) = l3 := I.shape.frame_tableEntry (by rw [hl3]; simp)
    rw [he, if_pos (links_tableEntry l3), hframe]
    have hleaves := TornTo.foldl
      (fun k _ _ hno => releaseLeaf_torn I hl3 (hno _ rfl)) (by rintro a a' r rfl h; cases h; rfl)
      (finRange 512) done cur (nodup_finRange _) (fun k _ r hr => hnot r (.inl ⟨k, hr⟩)) hT
    have hgone := hleaves.emptied (by simp [hl3])
      (fun g hg => I.shape.low_unique (hg.trans hl3) hl3)
      (by rw [hl3]; exact hnot _ (.inr rfl)) (by simp [hl3])
    rwa [hl3] at hgone

theorem releaseL2_torn (hl1 : role l1 = .root s)
    (hnot : ∀ r, BelowL1 s i r → ¬ done r) (hT : TornTo G m role s done cur) :
    TornTo G m role s (fun r => done r ∨ BelowL1 s i r) (releaseL2 l1 cur i) := by
  unfold releaseL2
  rw [hT.mem_eq, hT.kernelL1_eq]
  rcases I.shape.rootEntry s l1 i hl1 with he | ⟨l2, he, hl2⟩
  · -- The entry is the kernel's, or the first one and empty.
    have hown : ¬ Own m l1 i := Shape.not_own_of_inherited he
    have hskip : m.mem l1 i = m.mem m.kernelL1 i ∨ ¬ Links (m.mem l1 i) := by
      by_contra hcon
      rw [not_or, not_not] at hcon
      exact hown ⟨hcon.2, hcon.1⟩
    have hnomid : ∀ g, role g ≠ .mid s i := by
      intro g hg
      obtain ⟨f, hf, hfe⟩ := I.shape.midParent s i g hg
      rw [I.shape.root_unique hf hl1] at hfe
      exact hown (I.shape.own_of_mid hfe hg)
    have hnolow : ∀ j h, role h ≠ .low s i j := by
      intro j h hh
      obtain ⟨g, hg, -⟩ := I.shape.lowParent s i j h hh
      exact hnomid g hg
    rw [if_pos hskip]
    refine hT.skip ?_ ?_
    · rintro f r (⟨j, ⟨k, rfl⟩ | rfl⟩ | rfl) hfixed
      · exact absurd rfl (hfixed.2 _)
      · exact hnolow j f
      · exact hnomid f
    · rintro q (⟨j, ⟨k, hq⟩ | hq⟩ | hq) <;> cases hq
      exact held_eq_none (I.shape.leaf_eq_zero (hnolow j))
  · have hout : role l2 ≠ .outside := by rw [hl2]; simp
    have hgo : ¬ (m.mem l1 i = m.mem m.kernelL1 i ∨ ¬ Links (m.mem l1 i)) := by
      rw [he, not_or, not_not]
      exact ⟨I.shape.tableEntry_ne_kernel hout, links_tableEntry l2⟩
    rw [if_neg hgo, he, I.shape.frame_tableEntry hout]
    have hbelow := TornTo.foldl (fun j _ _ => releaseL3_torn I hl2)
      (by rintro a a' r (⟨k, rfl⟩ | rfl) (⟨k', h⟩ | h) <;> cases h <;> rfl)
      (finRange 512) done cur (nodup_finRange _) (fun j _ r hr => hnot r (.inl ⟨j, hr⟩)) hT
    have hgone := hbelow.emptied (by simp [hl2]) (fun g hg => I.shape.mid_unique (hg.trans hl2) hl2)
      (by rw [hl2]; exact hnot _ (.inr rfl)) (by simp [hl2, BelowL2])
    rwa [hl2] at hgone

/-! ## The whole walk -/

theorem torn_start (s : SpaceId) : TornTo G m role s (fun _ => False) m :=
  ⟨role, held m, rfl, rfl, rfl, I.ledger, I.pool_iff, fun _ h => h.elim, fun _ _ => rfl,
    fun _ _ h => h.elim, fun _ _ _ => rfl, fun _ _ h => .inl h, fun _ h => h⟩

/-- Everything that belongs to the address space has been dealt with. -/
theorem releaseAll_torn {sp : Space} (hsp : m.spaces s = some sp) :
    TornTo G m role s (fun r => (∃ q, r = .data q) ∨ r.Of s)
      (freePage ((finRange 512).foldl (releaseL2 sp.ttbr0) m) sp.ttbr0) := by
  have hroot := I.root hsp
  have hloops := TornTo.foldl (B := BelowL1 s) (fun i _ _ => releaseL2_torn I hroot)
    (by rintro a a' r (⟨j, ⟨k, rfl⟩ | rfl⟩ | rfl) (⟨j', ⟨k', h⟩ | h⟩ | h) <;> cases h <;> rfl)
    (finRange 512) (fun _ => False) m (nodup_finRange _) (fun _ _ _ _ h => h) (torn_start I s)
  refine (hloops.emptied (by simp [hroot])
    (fun g hg => I.shape.root_unique (hg.trans hroot) hroot) id
    (by simp [hroot, BelowL1, BelowL2])).congr fun r => ?_
  simp only [hroot, false_or]
  constructor
  · rintro (⟨i, ⟨j, ⟨k, rfl⟩ | rfl⟩ | rfl⟩ | rfl)
    · exact .inl ⟨_, rfl⟩
    · exact .inr (.inr (.inr ⟨i, j, rfl⟩))
    · exact .inr (.inr (.inl ⟨i, rfl⟩))
    · exact .inr (.inl rfl)
  · rintro (⟨⟨i, j, k⟩, rfl⟩ | rfl | ⟨i, rfl⟩ | ⟨i, j, rfl⟩)
    · exact .inl ⟨i, .inl ⟨j, .inl ⟨k, rfl⟩⟩⟩
    · exact .inr rfl
    · exact .inl ⟨i, .inr rfl⟩
    · exact .inl ⟨i, .inl ⟨j, .inr rfl⟩⟩

/-- **Teardown** keeps the invariant, and the tables of the address space are given back. -/
theorem destroy_spec (s : SpaceId) :
    ∃ role', Inv G (destroy m s) role' ∧ ∀ f, (role f).Of s → role' f = .free := by
  unfold destroy
  cases hsp : m.spaces s with
  | none =>
    refine ⟨role, I, fun f hf => ?_⟩
    -- A table of an address space is below its L1 table.
    have hroot : ∃ r, role r = .root s := by
      rcases hf with h | ⟨i, h⟩ | ⟨i, j, h⟩
      · exact ⟨f, h⟩
      · obtain ⟨r, hr, -⟩ := I.shape.midParent s i f h
        exact ⟨r, hr⟩
      · obtain ⟨g, hg, -⟩ := I.shape.lowParent s i j f h
        obtain ⟨r, hr, -⟩ := I.shape.midParent s i g hg
        exact ⟨r, hr⟩
    obtain ⟨r, hr⟩ := hroot
    obtain ⟨sp, hsp', -⟩ := (I.shape.root_iff s r).1 hr
    rw [hsp] at hsp'
    cases hsp'
  | some sp =>
    obtain ⟨role', heldC, T⟩ := releaseAll_torn I hsp
    simp only
    generalize freePage ((finRange 512).foldl (releaseL2 sp.ttbr0) m) sp.ttbr0 = cur at *
    have hspaces : ∀ t, t ≠ s → (cur.setSpace s none).spaces t = m.spaces t := by
      intro t ht
      rw [← T.spaces_eq]
      exact if_neg ht
    have hkeep : ∀ f r, r.Fixed → ¬ r.Of s → (role' f = r ↔ role f = r) := by
      intro f r hr hof
      have hdone : ∀ {x : Role}, x.Fixed → ((∃ q, x = .data q) ∨ x.Of s) → x.Of s :=
        fun hx h => h.resolve_left (fun ⟨q, hq⟩ => hx.2 q hq)
      constructor
      · rintro rfl
        cases hrole : role f with
        | free => exact (T.free f hrole).symm ▸ absurd (T.free f hrole) hr.1
        | data q =>
          rcases T.data f q hrole with h | h
          · exact absurd h (hr.2 q)
          · exact absurd h hr.1
        | _ =>
          have hfixed : (role f).Fixed := by simp [hrole]
          by_cases hd : (∃ q, role f = .data q) ∨ (role f).Of s
          · exact absurd (T.table_done f hfixed hd) hr.1
          · rw [T.table_rest f hfixed hd, hrole]
      · rintro rfl
        exact T.table_rest f hr (fun h => hof (hdone hr h))
    have hgone : ∀ f, ¬ (role' f).Of s := by
      intro f hof
      have hfixed : (role' f).Fixed := by
        rcases hof with h | ⟨i, h⟩ | ⟨i, j, h⟩ <;> simp [h]
      by_cases hr : (role f).Fixed
      · by_cases hd : (∃ q, role f = .data q) ∨ (role f).Of s
        · exact hfixed.1 (T.table_done f hr hd)
        · rw [T.table_rest f hr hd] at hof
          exact hd (.inr hof)
      · cases hrole : role f with
        | free => exact hfixed.1 (T.free f hrole)
        | data q =>
          rcases T.data f q hrole with h | h
          · exact hfixed.2 q h
          · exact hfixed.1 h
        | _ => exact hr (by simp [hrole])
    -- A page another address space maps is still owed, so it has not been given back.
    have hheld : ∀ t q, t ≠ s → heldC (t, q) = held m (t, q) :=
      fun t q ht => T.held_rest (t, q) (fun h => ht h.1)
    have hdata : ∀ t q f, t ≠ s → mapped m t q = some f → role' f = .data q := by
      intro t q f ht hf
      have hbusy := T.ledger.busy_of_held (t, q) f (by rw [hheld t q ht]; exact hf)
      rcases T.data f q (I.shape.role_of_mapped hf) with h | h
      · exact h
      · exact absurd hbusy (not_busy_of_free h)
    have S' : Shape (cur.setSpace s none) role' :=
      I.shape.close (setSpace_spaces_self ..) hspaces T.kernelL1_eq T.mem_eq hkeep hgone hdata
    have hleaf : ∀ t q, t ≠ s → leaf (cur.setSpace s none) t q = leaf m t q := by
      rintro t ⟨a, b, c⟩ ht
      have hlow : ∀ h, role' h = .low t a b ↔ role h = .low t a b :=
        fun h => hkeep h _ (by simp) (by simpa [Role.Of] using ht)
      refine Shape.leaf_eq I.shape S' (fun h hh => ⟨(hlow h).2 hh, ?_⟩)
        (fun h hh => .inl ((hlow h).1 hh))
      exact congrFun (congrFun T.mem_eq h) c
    have hnone : ∀ q, held (cur.setSpace s none) (s, q) = none := by
      intro q
      unfold held mapped leaf
      rw [setSpace_spaces_self]
      rfl
    have hheld' : held (cur.setSpace s none) = heldC := by
      funext p
      obtain ⟨t, q⟩ := p
      rcases eq_or_ne t s with rfl | ht
      · rw [hnone, T.held_done q (.inl ⟨q, rfl⟩)]
      · rw [hheld t q ht]
        unfold held mapped
        rw [hleaf t q ht]
    refine ⟨role', ⟨S', T.pool_iff, by rw [hheld']; exact T.ledger, ?_, ?_, ?_, ?_⟩, ?_⟩
    · intro f
      rw [hkeep f _ (by simp) (by simp [Role.Of]), I.outside_iff]
    · intro f hf
      show cur.mem f = _
      rw [T.mem_eq]
      exact I.untouched f hf
    · exact T.kernelL1_eq.trans I.kernelL1
    · intro hx p f p' hp hw hp'
      have hlive : ∀ {p}, held (cur.setSpace s none) p = some f → p.1 ≠ s := by
        rintro ⟨t, q⟩ h rfl
        rw [hnone] at h
        cases h
      have hback : ∀ {p}, held (cur.setSpace s none) p = some f → held m p = some f := by
        rintro ⟨t, q⟩ h
        have ht := hlive h
        rw [hheld', hheld t q ht] at h
        exact h
      rw [hleaf _ _ (hlive hp)] at hw
      exact I.excl hx p f p' (hback hp) hw (hback hp')
    · intro f hf
      refine T.table_done f ?_ (.inr hf)
      rcases hf with h | ⟨i, h⟩ | ⟨i, j, h⟩ <;> simp [h]

end IndexOS.Reality
