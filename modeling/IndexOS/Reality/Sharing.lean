import Mathlib.Data.Fintype.Prod
import IndexOS.Lib.RefCount
import IndexOS.Reality.Tables

/-!
# Tables, counters and pool together

The shape of the tables says which page is what; the ledger of the counters says how often a page is
mapped and what the allocator may hand out.  Neither is kept without the other: a page may only be
given back when no entry maps it, and an entry may only map a page that is not in the pool.  `Inv`
is both, together with what is true of the pages that were never the allocator's.

The invariant is parameterised by a `Ground`: the machine before the first address space, whether
the counters have to be exact, and whether an entry that can be written has to be the only one that
maps its page.  So one proof for each function serves every property of whole runs.

* `Inv.attach` and `ensureL3_spec` — walking down to an L3 table, which may add tables;
* `Inv.permit`, `Inv.put`, `Inv.swap`, `Inv.share`, `Inv.clear` — the five ways an L3 entry is
  written, each with what is mapped afterwards.
-/

set_option autoImplicit false

namespace IndexOS.Reality

open Machine
open Function (update update_eq_self update_idem update_of_ne update_self)

/-- The page an address space maps at a slot, for all of them together. -/
def held (m : Machine) (p : SpaceId × Slot) : Option Nat := mapped m p.1 p.2

/-- A page that can be written through an entry is mapped by no other entry. -/
def Exclusive (m : Machine) : Prop :=
  ∀ p f p', held m p = some f → Writable (leaf m p.1 p.2) → held m p' = some f → p' = p

/-- The page is one of data. -/
def Busy (role : Nat → Role) (f : Nat) : Prop := ∃ q, role f = .data q

/-- What a run starts from and which of the two stronger properties are asked for. -/
structure Ground where
  boot : Machine
  exact : Prop
  excl : Prop

structure Inv (G : Ground) (m : Machine) (role : Nat → Role) : Prop where
  shape : Shape m role
  pool_iff : ∀ f, f ∈ m.pool ↔ role f = .free
  ledger : Ledger G.exact Tracked (held m) m.refs m.pool (Busy role)
  outside_iff : ∀ f, role f = .outside ↔ f ∉ G.boot.pool
  untouched : ∀ f, f ∉ G.boot.pool → m.mem f = G.boot.mem f
  kernelL1 : m.kernelL1 = G.boot.kernelL1
  excl : G.excl → Exclusive m

/-- Tables have been added: nothing that is mapped or counted has changed. -/
structure Grown (m m' : Machine) (role role' : Nat → Role) : Prop where
  leaf_eq : ∀ s q, leaf m' s q = leaf m s q
  refs_eq : m'.refs = m.refs
  spaces_eq : m'.spaces = m.spaces
  role_eq : ∀ f, role f ≠ .free → role' f = role f
  data_eq : ∀ f q, role f = .data q → m'.mem f = m.mem f

variable {G : Ground} {m m' m'' : Machine} {role role' role'' : Nat → Role} {s : SpaceId}
  {i j k : Fin 512} {f g h t : Nat} {rest : List Nat}

theorem held_congr (hleaf : ∀ s q, leaf m' s q = leaf m s q) : held m' = held m := by
  funext p
  unfold held mapped
  rw [hleaf]

theorem Exclusive.congr (h : Exclusive m) (hleaf : ∀ s q, leaf m' s q = leaf m s q) :
    Exclusive m' := by
  intro p f p' hp hw hp'
  rw [held_congr hleaf] at hp hp'
  rw [hleaf] at hw
  exact h p f p' hp hw hp'

theorem Grown.refl (m : Machine) (role : Nat → Role) : Grown m m role role :=
  ⟨fun _ _ => rfl, rfl, rfl, fun _ _ => rfl, fun _ _ _ => rfl⟩

theorem Grown.trans (h₁ : Grown m m' role role') (h₂ : Grown m' m'' role' role'') :
    Grown m m'' role role'' where
  leaf_eq s q := (h₂.leaf_eq s q).trans (h₁.leaf_eq s q)
  refs_eq := h₂.refs_eq.trans h₁.refs_eq
  spaces_eq := h₂.spaces_eq.trans h₁.spaces_eq
  role_eq f hf := by
    have hone := h₁.role_eq f hf
    rw [← hone]
    exact h₂.role_eq f (by rw [hone]; exact hf)
  data_eq f q hf := by
    have hone := h₁.role_eq f (by rw [hf]; simp)
    rw [h₂.data_eq f q (by rw [hone]; exact hf), h₁.data_eq f q hf]

theorem Grown.held_eq (hg : Grown m m' role role') : held m' = held m := held_congr hg.leaf_eq

variable {p : SpaceId × Slot} {r : Role}

namespace Inv

variable (I : Inv G m role)
include I

theorem role_of_held (hf : held m p = some f) : role f = .data p.2 :=
  I.shape.role_of_mapped hf

/-- Only the outermost slot of a page can be held. -/
theorem slot_eq {p' : SpaceId × Slot} (hp : held m p = some f) (hp' : held m p' = some f) :
    p'.2 = p.2 := by
  have hrole := I.role_of_held hp
  rw [I.role_of_held hp', Role.data.injEq] at hrole
  exact hrole

theorem root {sp : Space} (hsp : m.spaces s = some sp) : role sp.ttbr0 = .root s :=
  (I.shape.root_iff s _).2 ⟨sp, hsp, rfl⟩

variable (hpool : m.pool = f :: rest)
include hpool

theorem head_free : role f = .free :=
  (I.pool_iff f).1 (by rw [hpool]; exact List.mem_cons_self ..)

/-- The pool after its first page has been taken for something. -/
theorem pool_iff_take (hr : r ≠ .free) (g : Nat) :
    g ∈ rest ↔ update role f r g = .free := by
  have hnodup := I.ledger.nodup
  rw [hpool] at hnodup
  rcases eq_or_ne g f with rfl | hgf
  · rw [update_self]
    exact ⟨fun hmem => absurd hmem (List.nodup_cons.1 hnodup).1, fun h => absurd h hr⟩
  · rw [update_of_ne hgf, ← I.pool_iff g, hpool, List.mem_cons]
    exact ⟨.inr, fun h => h.resolve_left hgf⟩

/-- The first page of the pool becomes a table, and nothing that is mapped changes. -/
theorem take (hr : r.Fixed) (hout : r ≠ .outside)
    (S' : Shape m' (update role f r)) (hleaf : ∀ u q, leaf m' u q = leaf m u q)
    (hrefs : m'.refs = m.refs)
    (hrest : m'.pool = rest) (hkernel : m'.kernelL1 = m.kernelL1)
    (hmem : ∀ g, role g = .outside → m'.mem g = m.mem g) : Inv G m' (update role f r) := by
  have hfree := I.head_free hpool
  have hbusy : Busy (update role f r) = Busy role := by
    funext g
    exact propext ⟨
      fun ⟨q, hq⟩ => ⟨q, (Shape.update_iff hfree (Ne.symm (hr.2 q)) (by simp) g).1 hq⟩,
      fun ⟨q, hq⟩ => ⟨q, (Shape.update_iff hfree (Ne.symm (hr.2 q)) (by simp) g).2 hq⟩⟩
  refine ⟨S', ?_, ?_, fun g => ?_, fun g hg => ?_, ?_, fun hx => (I.excl hx).congr hleaf⟩
  · rw [hrest]
    exact I.pool_iff_take hpool hr.1
  · rw [held_congr hleaf, hrefs, hrest, hbusy]
    exact Ledger.pop (hpool ▸ I.ledger)
  · rw [Shape.update_iff hfree (Ne.symm hout) (by simp), I.outside_iff]
  · rw [hmem g ((I.outside_iff g).2 hg)]
    exact I.untouched g hg
  · rw [hkernel, I.kernelL1]

/-- **A new table.** -/
theorem attach {c : Role} (ht : role t = r) (hc : r.child i = some c)
    (S' : Shape m' (update role f c)) (A : Shape.Attaches m m' t i f) (hrefs : m'.refs = m.refs)
    (hrest : m'.pool = rest) : Inv G m' (update role f c) ∧ Grown m m' role (update role f c) := by
  obtain ⟨hrfix, hcfix⟩ := Role.child_fixed hc
  obtain ⟨hrout, hrlow, hout⟩ := Role.child_ne hc
  have hfree := I.head_free hpool
  have hleaf := I.shape.leaf_attach S' hfree (by rw [ht]; exact hrlow) A
  have hne : ∀ {g}, role g ≠ .free → g ≠ f := fun hg heq => hg (heq ▸ hfree)
  refine ⟨I.take hpool hcfix hout S' hleaf hrefs hrest A.kernelL1 fun g hg => ?_,
    ⟨hleaf, hrefs, A.spaces, fun g hg => update_of_ne (hne hg) _ _, fun g q hg => ?_⟩⟩
  · exact A.others g (hne (by rw [hg]; simp)) (fun heq => hrout (ht ▸ heq ▸ hg.symm).symm)
  · exact A.others g (hne (by rw [hg]; simp)) (fun heq => hrfix.2 q (ht ▸ heq ▸ hg))

end Inv

/-! ## Walking down -/

theorem allocPageZeroed_eq (m : Machine) :
    allocPageZeroed m = none ∧ m.pool = [] ∨
    ∃ f rest, m.pool = f :: rest ∧
      allocPageZeroed m = some (f, m.draw f rest) := by
  unfold allocPageZeroed
  split
  · exact .inl ⟨rfl, by assumption⟩
  · rename_i f rest hpool
    exact .inr ⟨f, rest, hpool, rfl⟩

/-- What `tableFor` does when it has a page for the new table. -/
theorem attaches_tableFor (m : Machine) {t f : Nat} (i : Fin 512) (rest : List Nat) (hft : f ≠ t) :
    Shape.Attaches m ((m.draw f rest).setWord t i (tableEntry f)) t i f where
  spaces := rfl
  kernelL1 := rfl
  fresh c := by simp [draw, setWord, setPage, hft]
  entry := by simp [setWord, setPage]
  rest c hc := by simp [draw, setWord, setPage, hc, Ne.symm hft]
  others g hgf hgt := by simp [draw, setWord, setPage, hgf, hgt]

/-- The table below an entry: the one that is there already, or a fresh one. -/
theorem tableFor_child (I : Inv G m role) {c : Role} (ht : role t = r) (hc : r.child i = some c)
    (hown : Links (m.mem t i) → ∃ g, m.mem t i = tableEntry g ∧ role g = c) :
    ∃ role', Inv G (tableFor m t i).1 role' ∧ Grown m (tableFor m t i).1 role role' ∧
      ∀ g, (tableFor m t i).2 = some g → role' g = c := by
  unfold tableFor
  split
  · rename_i hlinks
    refine ⟨role, I, Grown.refl m role, fun g hg => ?_⟩
    cases hg
    obtain ⟨g, he, hg⟩ := hown hlinks
    rw [he, I.shape.frame_tableEntry (by rw [hg]; exact (Role.child_ne hc).2.2)]
    exact hg
  · rename_i hempty
    rcases allocPageZeroed_eq m with ⟨hnone, -⟩ | ⟨f, rest, hpool, hsome⟩
    · rw [hnone]
      exact ⟨role, I, Grown.refl m role, fun g hg => by cases hg⟩
    · rw [hsome]
      have hfree := I.head_free hpool
      have hft : f ≠ t := by
        rintro rfl
        exact (Role.child_fixed hc).1.1 (ht.symm.trans hfree)
      have A := attaches_tableFor m i rest hft
      obtain ⟨I', hgrown⟩ := I.attach hpool ht hc (A.shape I.shape ht hc hfree hempty) A rfl rfl
      refine ⟨_, I', hgrown, fun g hg => ?_⟩
      cases hg
      exact update_self ..

/-- **Walking down** keeps the invariant, changes nothing that is mapped, and ends in the L3 table
of the address. -/
theorem ensureL3_spec (I : Inv G m role) {l1 : Nat} (hl1 : role l1 = .root s) (va : Nat) :
    ∃ role', Inv G (ensureL3 m l1 va).1 role' ∧ Grown m (ensureL3 m l1 va).1 role role' ∧
      ∀ h, (ensureL3 m l1 va).2 = some h →
        role' h = .low s (l1Index va) (l2Index va) ∧ ¬ SharesKernel m l1 va := by
  unfold ensureL3
  split
  · exact ⟨role, I, Grown.refl m role, fun h hh => by cases hh⟩
  · rename_i hkernel
    obtain ⟨role₁, I₁, hgrown₁, hmid⟩ := tableFor_child I hl1 rfl fun hlinks =>
      (I.shape.rootEntry s l1 _ hl1).resolve_left fun he =>
        Shape.not_own_of_inherited he ⟨hlinks, fun heq => hkernel ⟨hlinks, heq⟩⟩
    generalize tableFor m l1 (l1Index va) = r at *
    obtain ⟨m₁, _ | l2⟩ := r
    · exact ⟨role₁, I₁, hgrown₁, fun h hh => by cases hh⟩
    · obtain ⟨role₂, I₂, hgrown₂, hlow⟩ := tableFor_child I₁ (hmid l2 rfl) rfl fun hlinks =>
        (I₁.shape.midEntry s _ _ l2 (hmid l2 rfl)).resolve_left fun he => not_links_zero
        (he ▸ hlinks)
      exact ⟨role₂, I₂, hgrown₁.trans hgrown₂, fun h hh => ⟨hlow h hh, hkernel⟩⟩

/-! ## Writing an entry -/

/-- One word of a table is written; pages of data and free pages may change with it. -/
structure Writes (role : Nat → Role) (m m' : Machine) (h : Nat) (k : Fin 512) (w : Nat) : Prop where
  spaces : m'.spaces = m.spaces
  kernelL1 : m'.kernelL1 = m.kernelL1
  mem : ∀ f, (role f).Fixed → ∀ c, m'.mem f c = if f = h ∧ c = k then w else m.mem f c

/-- The page an entry maps. -/
def pageOf (w : Nat) : Option Nat := if Links w then some (frameOf w) else none

theorem pageOf_zero : pageOf 0 = none := rfl

theorem pageOf_pageEntry {f : Nat} (hf : f < 2 ^ 36) (prot : UInt8) :
    pageOf (pageEntry f prot) = some f := by
  unfold pageOf
  rw [if_pos (links_pageEntry f prot), frameOf_pageEntry hf]

/-- What is mapped after the entry `w` has been written at a place. -/
structure Entered (m m' : Machine) (p : SpaceId × Slot) (w : Nat) : Prop where
  leaf_eq : ∀ t q, leaf m' t q = if (t, q) = p then w else leaf m t q
  held_eq : held m' = update (held m) p (pageOf w)
  spaces_eq : m'.spaces = m.spaces

namespace Inv

variable {w : Nat}

/-- **Writing an entry.**  What is left for each way of doing it is that the pool and the counters
go along, and that pages that are mapped elsewhere stay pages of data. -/
theorem enter (I : Inv G m role) (hh : role h = .low s i j) (W : Writes role m m' h k w)
    (hrole : SameTables role role')
    (hw : w = 0 ∨ ∃ f prot, w = pageEntry f prot ∧ role' f = .data (i, j, k))
    (hdata : ∀ p f, p ≠ (s, (i, j, k)) → held m p = some f → role' f = .data p.2)
    (hpool : ∀ f, f ∈ m'.pool ↔ role' f = .free)
    (hledger : Ledger G.exact Tracked (update (held m) (s, (i, j, k)) (pageOf w)) m'.refs
      m'.pool (Busy role'))
    (hexcl : G.excl → ∀ p f, p ≠ (s, (i, j, k)) → pageOf w = some f → held m p = some f →
      ¬ Writable (leaf m p.1 p.2) ∧ ¬ Writable w) :
    Inv G m' role' ∧ Entered m m' (s, (i, j, k)) w := by
  have hframe : Shape.SameFrame m m' := ⟨W.kernelL1, fun u => by rw [W.spaces]⟩
  have S' : Shape m' role' := by
    refine I.shape.rewrite hh hframe W.mem hrole hw (fun u q f hne hf => hdata (u, q) f ?_ hf)
    intro heq
    rw [Prod.mk.injEq] at heq
    exact hne heq
  have hleaf : ∀ u q, leaf m' u q = if (u, q) = (s, (i, j, k)) then w else leaf m u q := by
    intro u q
    rw [I.shape.leaf_rewrite S' hh W.mem hrole u q]
    exact if_congr Prod.mk_inj.symm rfl rfl
  have hheld : held m' = update (held m) (s, (i, j, k)) (pageOf w) := by
    funext p
    rcases eq_or_ne p (s, (i, j, k)) with rfl | hp
    · rw [update_self]
      unfold held mapped
      rw [hleaf, if_pos rfl]
      rfl
    · have hsame : leaf m' p.1 p.2 = leaf m p.1 p.2 := by
        rw [hleaf]
        exact if_neg hp
      rw [update_of_ne hp]
      unfold held mapped
      rw [hsame]
  refine ⟨⟨S', hpool, by rw [hheld]; exact hledger, ?_, ?_, ?_, ?_⟩, ⟨hleaf, hheld, W.spaces⟩⟩
  · intro f
    rw [hrole f _ (by simp), I.outside_iff]
  · intro f hf
    have hout := (I.outside_iff f).2 hf
    rw [← I.untouched f hf]
    funext c
    have hfh : ¬ (f = h ∧ c = k) := by
      rintro ⟨rfl, -⟩
      rw [hout] at hh
      cases hh
    rw [W.mem f (by simp [hout]), if_neg hfh]
  · rw [W.kernelL1, I.kernelL1]
  · intro hx p f p' hp hwr hp'
    rw [hheld] at hp hp'
    rw [hleaf] at hwr
    by_cases hhere : p = (s, (i, j, k))
    · subst hhere
      rw [update_self] at hp
      rw [if_pos rfl] at hwr
      by_contra hne
      rw [update_of_ne hne] at hp'
      exact (hexcl hx p' f hne hp hp').2 hwr
    · rw [update_of_ne hhere] at hp
      rw [if_neg (by simpa using hhere)] at hwr
      by_cases hhere' : p' = (s, (i, j, k))
      · subst hhere'
        rw [update_self] at hp'
        exact absurd hwr (hexcl hx p f hhere hp' hp).1
      · rw [update_of_ne hhere'] at hp'
        exact I.excl hx p f p' hp hwr hp'

end Inv

theorem SameTables.refl (role : Nat → Role) : SameTables role role := fun _ _ _ => Iff.rfl

/-- A page turns from a free one into one of data, or back. -/
theorem sameTables_update (hf : ¬ (role f).Fixed) (hr : ¬ r.Fixed) :
    SameTables role (update role f r) := by
  intro g r' hr'
  rcases eq_or_ne g f with rfl | hgf
  · rw [update_self]
    exact ⟨fun heq => absurd (heq ▸ hr') hr, fun heq => absurd (heq ▸ hr') hf⟩
  · rw [update_of_ne hgf]

theorem writes_setWord (role : Nat → Role) (m : Machine) (h : Nat) (k : Fin 512) (w : Nat) :
    Writes role m (m.setWord h k w) h k w where
  spaces := rfl
  kernelL1 := rfl
  mem f _ c := by
    by_cases hf : f = h
    · subst hf
      by_cases hc : c = k <;> simp [setWord, setPage]
    · simp [setWord, setPage, hf]

/-! ## Counters -/

section Counters

variable (m : Machine) (f : Nat)

@[simp] theorem pageRef_mem : (pageRef m f).mem = m.mem := by unfold pageRef; split <;> rfl
@[simp] theorem pageRef_spaces : (pageRef m f).spaces = m.spaces := by unfold pageRef; split <;> rfl
@[simp] theorem pageRef_pool : (pageRef m f).pool = m.pool := by unfold pageRef; split <;> rfl
@[simp] theorem pageRef_kernelL1 : (pageRef m f).kernelL1 = m.kernelL1 := by
  unfold pageRef; split <;> rfl

theorem pageRef_refs_ne {f g : Nat} (hg : g ≠ f) : (pageRef m f).refs g = m.refs g := by
  unfold pageRef
  split
  · exact if_neg hg
  · rfl

theorem pageRef_refs_self {f : Nat} (hf : Tracked f) (hlt : m.refs f + 1 < 2 ^ 16) :
    (pageRef m f).refs f = m.refs f + 1 := by
  unfold pageRef
  rw [if_pos hf]
  exact (if_pos rfl).trans (Nat.mod_eq_of_lt hlt)

theorem pageRef_refs_le (g : Nat) : (pageRef m f).refs g ≤ m.refs g + 1 := by
  rcases eq_or_ne g f with rfl | hg
  · unfold pageRef
    split
    · have hself : (m.setRefs g ((m.refs g + 1) % 2 ^ 16)).refs g = (m.refs g + 1) % 2 ^ 16 :=
        if_pos rfl
      rw [hself]
      exact Nat.mod_le _ _
    · exact Nat.le_succ _
  · rw [pageRef_refs_ne m hg]
    exact Nat.le_succ _

@[simp] theorem pageUnref_mem : (pageUnref m f).mem = m.mem := by
  unfold pageUnref
  split
  · split <;> rfl
  · rfl

@[simp] theorem pageUnref_spaces : (pageUnref m f).spaces = m.spaces := by
  unfold pageUnref
  split
  · split <;> rfl
  · rfl

@[simp] theorem pageUnref_kernelL1 : (pageUnref m f).kernelL1 = m.kernelL1 := by
  unfold pageUnref
  split
  · split <;> rfl
  · rfl

theorem pageUnref_refs_ne {f g : Nat} (hg : g ≠ f) : (pageUnref m f).refs g = m.refs g := by
  unfold pageUnref
  split
  · split <;> exact if_neg hg
  · rfl

theorem pageUnref_refs_self {f : Nat} (hf : Tracked f) (hpos : 0 < m.refs f) :
    (pageUnref m f).refs f + 1 = m.refs f := by
  have hsub : (pageUnref m f).refs f = m.refs f - 1 := by
    unfold pageUnref
    rw [if_pos ⟨hf, hpos⟩]
    split <;> exact if_pos rfl
  omega

/-- The last reference is dropped. -/
theorem pageUnref_pool_last {f : Nat} (hf : Tracked f) (hone : m.refs f = 1) :
    (pageUnref m f).pool = f :: m.pool := by
  unfold pageUnref
  rw [if_pos ⟨hf, by omega⟩]
  simp only [if_pos hone]
  rfl

theorem pageUnref_pool_keep {f : Nat} (hkeep : Tracked f → m.refs f ≠ 1) :
    (pageUnref m f).pool = m.pool := by
  unfold pageUnref
  split
  · rename_i h
    simp only [if_neg (hkeep h.1)]
    rfl
  · rfl

end Counters

/-! ## The five ways -/

theorem busy_update (q : Slot) (g : Nat) :
    Busy (update role f (.data q)) g ↔ Busy role g ∨ g = f := by
  unfold Busy
  rcases eq_or_ne g f with rfl | hgf
  · simp
  · simp [hgf]

theorem not_busy_of_free (hf : role f = .free) : ¬ Busy role f := by
  rintro ⟨q, hq⟩
  rw [hf] at hq
  cases hq

theorem not_fixed_of_free (hf : role f = .free) : ¬ (role f).Fixed := fun h => h.1 hf

theorem not_fixed_of_data {q : Slot} (hf : role f = .data q) : ¬ (role f).Fixed := fun h => h.2 q hf

namespace Inv

variable (I : Inv G m role)
include I

theorem small {q : Slot} (hf : role f = .data q) : f < 2 ^ 36 :=
  I.shape.small f (by rw [hf]; simp)

/-- An L3 entry that is present maps a page of data. -/
theorem held_of_links (hh : role h = .low s i j) (hlinks : Links (m.mem h k)) :
    ∃ f prot, m.mem h k = pageEntry f prot ∧ role f = .data (i, j, k) ∧ held m
      (s, (i, j, k)) = some f := by
  rcases I.shape.lowEntry s i j k h hh with hzero | ⟨f, prot, he, hf⟩
  · rw [hzero] at hlinks
    exact absurd hlinks not_links_zero
  · exact ⟨f, prot, he, hf, I.shape.mapped_of_leaf (by rw [I.shape.leaf_low hh]; exact he) hf⟩

/-- The entry of a page is given another protection. -/
theorem permit (hh : role h = .low s i j) (hf : held m (s, (i, j, k)) = some f) (prot : UInt8)
    (hsafe : G.excl → canWrite prot = true → ∀ p, held m p = some f → p = (s, (i, j, k))) :
    Inv G (m.setWord h k (pageEntry f prot)) role ∧
      Entered m (m.setWord h k (pageEntry f prot)) (s, (i, j, k)) (pageEntry f prot) := by
  have hrole := I.role_of_held hf
  have hpage : pageOf (pageEntry f prot) = some f := pageOf_pageEntry (I.small hrole) prot
  refine I.enter hh (writes_setWord role m h k _) (SameTables.refl role)
    (.inr ⟨f, prot, rfl, hrole⟩) (fun p g _ hg => I.role_of_held hg) I.pool_iff ?_ ?_
  · rw [hpage, ← hf, update_eq_self]
    exact I.ledger
  · intro hx p g hp hg hpg
    rw [hpage] at hg
    cases hg
    refine ⟨fun hw => hp (I.excl hx p f _ hpg hw hf).symm, fun hw => hp ?_⟩
    exact hsafe hx ((writable_pageEntry f prot).1 hw) p hpg

theorem ne_head_of_held (hpool : m.pool = g :: rest) (hf : held m p = some f) :
    f ≠ g := by
  rintro rfl
  have hrole := I.role_of_held hf
  rw [I.head_free hpool] at hrole
  cases hrole

section
variable (hpool : m.pool = g :: rest) (hh : role h = .low s i j)
include hpool hh

/-- A fresh page comes to a slot, and the page that was there, if any, has been given up. -/
theorem place (content : Page) {prot : UInt8}
    {refs : Nat → Nat} (hspaces : m'.spaces = m.spaces) (hkernel : m'.kernelL1 = m.kernelL1)
    (hmem : m'.mem = (((m.draw g rest).setPage g content).setWord h k (pageEntry g prot)).mem)
    (hpool' : m'.pool = rest)
    (hdropped : Ledger G.exact Tracked (update (held m) (s, (i, j, k)) none) refs rest (Busy role))
    (hothers : ∀ x, x ≠ g → m'.refs x = refs x) (hself : Tracked g → m'.refs g = refs g + 1) :
    Inv G m' (update role g (.data (i, j, k))) ∧ Entered m m' (s, (i, j, k))
      (pageEntry g prot) := by
  have hfree := I.head_free hpool
  have hsmall : g < 2 ^ 36 := I.shape.small g (by rw [hfree]; simp)
  have hpage : pageOf (pageEntry g prot) = some g := pageOf_pageEntry hsmall prot
  have hW : Writes role m m' h k (pageEntry g prot) := by
    refine ⟨hspaces, hkernel, fun f hf c => ?_⟩
    have hfg : f ≠ g := by
      rintro rfl
      exact not_fixed_of_free hfree hf
    rw [hmem]
    by_cases hfh : f = h
    · subst hfh
      by_cases hc : c = k <;> simp [draw, setWord, setPage, hfg]
    · simp [draw, setWord, setPage, hfh, hfg]
  have hnodup := I.ledger.nodup
  rw [hpool] at hnodup
  refine I.enter hh hW (sameTables_update (not_fixed_of_free hfree) (fun hr => hr.2 _ rfl))
    (.inr ⟨g, prot, rfl, update_self ..⟩) ?_ ?_ ?_ ?_
  · intro p f _ hf
    rw [update_of_ne (I.ne_head_of_held hpool hf)]
    exact I.role_of_held hf
  · rw [hpool']
    exact I.pool_iff_take hpool (by simp)
  · have hidem : update (update (held m) (s, (i, j, k)) none) (s, (i, j, k)) (some g) =
        update (held m) (s, (i, j, k)) (some g) := update_idem ..
    rw [hpage, hpool', ← hidem]
    exact hdropped.acquire (update_self ..) (not_busy_of_free hfree) (List.nodup_cons.1 hnodup).1
      (busy_update (i, j, k)) hothers hself
  · intro _ p f _ hf hpf
    rw [hpage] at hf
    cases hf
    exact absurd rfl (I.ne_head_of_held hpool hpf)

/-- A fresh page is mapped where nothing was. -/
theorem put (hnone : held m (s, (i, j, k)) = none)
    (content : Page) (prot : UInt8)
    (hm' : m' = pageRef (((m.draw g rest).setPage g content).setWord h k (pageEntry g prot)) g) :
    Inv G m' (update role g (.data (i, j, k))) ∧
      Entered m m' (s, (i, j, k)) (pageEntry g prot) := by
  subst hm'
  refine I.place hpool hh content (pageRef_spaces ..) (pageRef_kernelL1 ..) (pageRef_mem ..)
    (pageRef_pool ..)
    (by rw [← hnone, update_eq_self]; exact Ledger.pop (hpool ▸ I.ledger))
    (fun x hx => pageRef_refs_ne _ hx)
    fun htracked => ?_
  have hzero : m.refs g = 0 := I.ledger.refs_idle g htracked (not_busy_of_free (I.head_free hpool))
  refine pageRef_refs_self _ htracked ?_
  show m.refs g + 1 < 2 ^ 16
  omega

/-- A page that others map too is replaced by a fresh one. -/
theorem swap (hf : held m (s, (i, j, k)) = some f)
    (htracked : Tracked f) (hmany : 1 < m.refs f) (content : Page) (prot : UInt8)
    (hm' : m' = (pageRef (pageUnref ((m.draw g rest).setPage g content) f) g).setWord h k
      (pageEntry g prot)) :
    Inv G m' (update role g (.data (i, j, k))) ∧
      Entered m m' (s, (i, j, k)) (pageEntry g prot) := by
  subst hm'
  set dropped := pageUnref ((m.draw g rest).setPage g content) f with hdropped
  have hkeep : Tracked f → ((m.draw g rest).setPage g content).refs f ≠ 1 :=
    fun _ => show m.refs f ≠ 1 by omega
  refine I.place hpool hh content ?_ ?_ ?_ ?_ ?_ (fun x hx => pageRef_refs_ne _ hx) fun hgt => ?_
  · exact (pageRef_spaces ..).trans (pageUnref_spaces ..)
  · exact (pageRef_kernelL1 ..).trans (pageUnref_kernelL1 ..)
  · simp only [hdropped, setWord, setPage, pageRef_mem, pageUnref_mem]
  · exact (pageRef_pool ..).trans (pageUnref_pool_keep _ hkeep)
  · refine (Ledger.pop (hpool ▸ I.ledger)).drop hf (fun _ => hmany)
      (fun x hx => pageUnref_refs_ne _ hx) ?_
    intro _
    exact pageUnref_refs_self _ htracked (show 0 < m.refs f by omega)
  · have hzero : m.refs g = 0 := I.ledger.refs_idle g hgt (not_busy_of_free (I.head_free hpool))
    refine pageRef_refs_self _ hgt ?_
    rw [pageUnref_refs_ne _ (I.ne_head_of_held hpool hf).symm]
    show m.refs g + 1 < 2 ^ 16
    omega

end

/-- A page that one address space maps is mapped, read-only, by another one at the same slot. -/
theorem share (hh : role h = .low s i j) {u : SpaceId} (hf : held m (u, (i, j, k)) = some f)
    (hchild : held m (s, (i, j, k)) = none ∨ held m (s, (i, j, k)) = some f ∧ ¬ G.exact)
    (prot : UInt8)
    (hprot : canWrite prot = false) (hparent : ¬ Writable (leaf m u (i, j, k)))
    (hlt : Tracked f → m.refs f + 1 < 2 ^ 16) :
    Inv G (pageRef (m.setWord h k (pageEntry f prot)) f) role ∧
      Entered m (pageRef (m.setWord h k (pageEntry f prot)) f) (s, (i, j, k))
        (pageEntry f prot) := by
  have hrole := I.role_of_held hf
  have hpage : pageOf (pageEntry f prot) = some f := pageOf_pageEntry (I.small hrole) prot
  have hW : Writes role m (pageRef (m.setWord h k (pageEntry f prot)) f) h k
    (pageEntry f prot) := by
    have W := writes_setWord role m h k (pageEntry f prot)
    exact ⟨by rw [pageRef_spaces]; exact W.spaces, by rw [pageRef_kernelL1]; exact W.kernelL1,
      by rw [pageRef_mem]; exact W.mem⟩
  refine I.enter hh hW (SameTables.refl role) (.inr ⟨f, prot, rfl, hrole⟩)
    (fun p g _ hg => I.role_of_held hg) (by rw [pageRef_pool]; exact I.pool_iff) ?_ ?_
  · rw [hpage, pageRef_pool]
    refine I.ledger.share hf hchild ?_ ?_
    · intro g hg
      rw [pageRef_refs_ne _ hg]
      rfl
    · intro htracked
      exact pageRef_refs_self _ htracked (hlt htracked)
  · intro hx p g hp hg hpg
    rw [hpage] at hg
    cases hg
    refine ⟨fun hw => ?_, fun hw => ?_⟩
    · have heq := I.excl hx p f _ hpg hw hf
      rw [← heq] at hw
      exact hparent hw
    · rw [writable_pageEntry, hprot] at hw
      cases hw

/-- An entry is cleared and the page it mapped, if any, loses a reference. -/
theorem clear (hh : role h = .low s i j) (k : Fin 512) :
    ∃ role', Inv G (pageUnref (m.setWord h k 0) (frameOf (m.mem h k))) role' ∧
      Entered m (pageUnref (m.setWord h k 0) (frameOf (m.mem h k))) (s, (i, j, k)) 0 := by
  have hW : Writes role m (pageUnref (m.setWord h k 0) (frameOf (m.mem h k))) h k 0 := by
    have W := writes_setWord role m h k 0
    exact ⟨by rw [pageUnref_spaces]; exact W.spaces, by rw [pageUnref_kernelL1]; exact W.kernelL1,
      by rw [pageUnref_mem]; exact W.mem⟩
  have hexcl : G.excl → ∀ p x, p ≠ (s, (i, j, k)) → pageOf 0 = some x → held m p = some x →
      ¬ Writable (leaf m p.1 p.2) ∧ ¬ Writable 0 := by
    intro _ p x _ hx
    cases hx
  rcases I.shape.lowEntry s i j k h hh with hzero | ⟨f, prot, he, hrole⟩
  · have hnone : held m (s, (i, j, k)) = none := by
      unfold held mapped
      rw [I.shape.leaf_low hh, hzero]
      rfl
    have hsame : pageUnref (m.setWord h k 0) (frameOf (m.mem h k)) = m.setWord h k 0 := by
      rw [hzero]
      rfl
    refine ⟨role, I.enter hh hW (SameTables.refl role) (.inl rfl)
      (fun p g _ hg => I.role_of_held hg) ?_ ?_ hexcl⟩
    · rw [hsame]
      exact I.pool_iff
    · rw [hsame, pageOf_zero, ← hnone, update_eq_self]
      exact I.ledger
  · have hheld : held m (s, (i, j, k)) = some f :=
      I.shape.mapped_of_leaf (by rw [I.shape.leaf_low hh]; exact he) hrole
    have hframe : frameOf (m.mem h k) = f := by rw [he, frameOf_pageEntry (I.small hrole)]
    have hrefs : (m.setWord h k 0).refs = m.refs := rfl
    rw [hframe] at hW ⊢
    by_cases hlast : Tracked f ∧ m.refs f = 1
    · obtain ⟨htracked, hone⟩ := hlast
      have hpool : (pageUnref (m.setWord h k 0) f).pool = f :: m.pool :=
        pageUnref_pool_last _ htracked hone
      have hsole : ∀ p, held m p = some f → p = (s, (i, j, k)) := fun p hp =>
        eq_of_holders_le_one (hone ▸ I.ledger.counted f htracked) hheld hp
      refine ⟨update role f .free, I.enter hh hW
        (sameTables_update (not_fixed_of_data hrole) (fun hr => hr.1 rfl))
        (.inl rfl) ?_ ?_ ?_ hexcl⟩
      · intro p x hp hx
        have hxf : x ≠ f := by
          rintro rfl
          exact hp (hsole p hx)
        rw [update_of_ne hxf]
        exact I.role_of_held hx
      · intro x
        rw [hpool, List.mem_cons, I.pool_iff]
        rcases eq_or_ne x f with rfl | hxf
        · simp
        · simp [hxf]
      · rw [hpool]
        refine I.ledger.release hheld htracked hone ?_ ?_ ?_
        · intro x
          unfold Busy
          rcases eq_or_ne x f with rfl | hxf
          · simp
          · simp [hxf]
        · intro x hx
          rw [pageUnref_refs_ne _ hx, hrefs]
        · have hsub := pageUnref_refs_self (m.setWord h k 0) htracked (show 0 < m.refs f by omega)
          rw [hrefs] at hsub
          omega
    · have hkeep : Tracked f → (m.setWord h k 0).refs f ≠ 1 := fun ht hone => hlast ⟨ht, hone⟩
      have hpool : (pageUnref (m.setWord h k 0) f).pool = m.pool := pageUnref_pool_keep _ hkeep
      have hpos : Tracked f → 0 < m.refs f := fun ht => I.ledger.refs_busy f ht ⟨_, hrole⟩
      refine ⟨role, I.enter hh hW (SameTables.refl role) (.inl rfl)
        (fun p g _ hg => I.role_of_held hg) ?_ ?_ hexcl⟩
      · rw [hpool]
        exact I.pool_iff
      · rw [hpool]
        refine I.ledger.drop hheld ?_ ?_ ?_
        · intro ht
          have hne := hkeep ht
          have hgt := hpos ht
          rw [hrefs] at hne
          omega
        · intro x hx
          rw [pageUnref_refs_ne _ hx, hrefs]
        · intro ht
          exact pageUnref_refs_self _ ht (hpos ht)

end Inv

end IndexOS.Reality
