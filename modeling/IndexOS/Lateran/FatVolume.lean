import IndexOS.Lateran.FatTable
import IndexOS.Lib.ChainTree

/-!
# Consistent FAT16 volumes

The slots of a volume are those of the root directory and those of the clusters; what a slot holds
is an entry unless it is free, a part of a long name, a label, or one of the two names by which a
directory refers to itself and to its parent.

* `Slot` — a place for a directory entry;
* `Tree` — the directory tree `t` is what the volume holds: the slots that are found from the root
  hold the items of `t`, no cluster is in two chains, and every cluster that is in no chain is free;
* `Consistent` — there is such a tree;
* `Tree.rewrite` — one slot is rewritten.  Whatever the code does to a volume is one or two changes
  of this kind.

While a directory is being made, its cluster is already taken and in no chain yet.  `Tree` has a
list of such clusters; in a consistent volume it is empty.
-/

set_option autoImplicit false

namespace IndexOS.Lateran.Fat16

open LittleEndian LinkedList ChainTree

/-! ## Slots -/

/-- A slot of the root directory or of a cluster, by its number there. -/
@[ext] structure Slot (g : Layout) where
  home : Option Nat
  index : Nat
  valid : match home with
    | none => index < 16 * g.rootSectors
    | some c => 2 ≤ c ∧ index < 16 * g.sectorsPerCluster

variable {g : Layout} {d d' : Disk} {o : Option (Item Nat)} {c : Nat} {s : Slot g}

/-- The sector that slot number 0 lies in. -/
def Slot.base (s : Slot g) : Nat :=
  match s.home with
  | none => g.rootStart
  | some c => g.clusterFirstSector c

def Slot.sector (s : Slot g) : Nat := s.base + s.index / 16

def Slot.off (s : Slot g) : Nat := s.index % 16 * 32

def Slot.byte (d : Disk) (s : Slot g) (i : Nat) : UInt8 := d s.sector (s.off + i)

/-- The first cluster of an entry. -/
def Slot.first (d : Disk) (s : Slot g) : Nat := rd16 (d s.sector) (s.off + 26)

open Slot

theorem Slot.rootStart_le (s : Slot g) : g.rootStart ≤ s.sector := by
  unfold sector base Layout.clusterFirstSector Layout.dataStart
  split <;> omega

theorem Slot.sector_lt_of_root (h : s.home = none) : s.sector < g.dataStart := by
  have hv := s.valid
  unfold sector base Layout.dataStart
  rw [h] at hv ⊢
  simp only at ⊢
  omega

theorem Slot.inCluster (h : s.home = some c) : InCluster g c s.sector := by
  have hv := s.valid
  unfold sector base InCluster
  rw [h] at hv ⊢
  simp only at ⊢
  omega

theorem Slot.two_le (h : s.home = some c) : 2 ≤ c := by
  have hv := s.valid
  rw [h] at hv
  exact hv.1

/-- The sectors of different clusters are different. -/
theorem inCluster_unique {c c' s : Nat} (hc : 2 ≤ c) (hc' : 2 ≤ c') (h : InCluster g c s)
    (h' : InCluster g c' s) : c = c' := by
  have key : ∀ {a b : Nat}, a < b → InCluster g (a + 2) s → ¬ InCluster g (b + 2) s := by
    intro a b hab ha hb
    have hmul : (a + 1) * g.sectorsPerCluster ≤ b * g.sectorsPerCluster :=
      Nat.mul_le_mul_right _ hab
    rw [Nat.succ_mul] at hmul
    have h1 := ha.2
    have h2 := hb.1
    unfold Layout.clusterFirstSector at h1 h2
    simp only [Nat.add_sub_cancel] at h1 h2
    omega
  obtain ⟨a, rfl⟩ := Nat.exists_eq_add_of_le' hc
  obtain ⟨b, rfl⟩ := Nat.exists_eq_add_of_le' hc'
  rcases Nat.lt_trichotomy a b with hlt | rfl | hgt
  · exact absurd h' (key hlt h)
  · rfl
  · exact absurd h (key hgt h')

theorem Slot.not_inCluster (hc : 2 ≤ c) (h : s.home ≠ some c) : ¬ InCluster g c s.sector := by
  intro hin
  cases hs : s.home with
  | none =>
    have h1 := sector_lt_of_root hs
    have h2 := hin.1
    unfold Layout.clusterFirstSector at h2
    omega
  | some c' =>
    rw [hs] at h
    exact h (by rw [inCluster_unique hc (two_le hs) hin (inCluster hs)])

/-- A slot is known by its place on the disk. -/
theorem Slot.eq_of_place {s s' : Slot g} (hsec : s.sector = s'.sector) (hoff : s.off = s'.off) :
    s = s' := by
  have hhome : s.home = s'.home := by
    cases hs : s.home with
    | none =>
      cases hs' : s'.home with
      | none => rfl
      | some c =>
        have h1 := sector_lt_of_root hs
        have h2 := (inCluster hs').1
        unfold Layout.clusterFirstSector at h2
        omega
    | some c =>
      by_contra hne
      exact not_inCluster (two_le hs) (fun h => hne h.symm) (hsec ▸ inCluster hs)
  have hbase : s.base = s'.base := by
    unfold base
    rw [hhome]
  ext1
  · exact hhome
  · unfold sector off at *
    omega

/-- The two slots have the same 32 bytes. -/
def SameSlot (d d' : Disk) (s : Slot g) : Prop := ∀ i < 32, s.byte d' i = s.byte d i

theorem sameSlot_of_sector (h : d' s.sector = d s.sector) : SameSlot d d' s :=
  fun i _ => by unfold byte; rw [h]

/-! ## Entries -/

/-- The names by which a directory refers to itself and to its parent. -/
def dotNames : List (List UInt8) :=
  [dot :: List.replicate 10 blank, dot :: dot :: List.replicate 9 blank]

/-- The entry `.` or `..` of a subdirectory. -/
def IsDot (d : Disk) (s : Slot g) : Prop :=
  s.home.isSome ∧ rawName (d s.sector) s.off ∈ dotNames

/-- The slot holds a file or a directory. -/
structure IsEntry (d : Disk) (s : Slot g) : Prop where
  used : s.byte d 0 ≠ 0x00
  kept : s.byte d 0 ≠ 0xE5
  plain : ¬ (s.byte d 11 = 0x0F ∨ s.byte d 11 &&& 0x08 ≠ 0)
  named : ¬ IsDot d s

/-- What the slot holds, as an item of the tree. -/
def Describes (g : Layout) (d : Disk) (s : Slot g) : Option (Item Nat) → Prop
  | none => ¬ IsEntry d s
  | some item => IsEntry d s ∧ item.isDir = decide (s.byte d 11 &&& 0x10 ≠ 0) ∧
      Chain g (fatNext g d) (s.first d) item.chain

section
variable (h : SameSlot d d' s)
include h

theorem SameSlot.first : s.first d' = s.first d :=
  rd16_congr fun k hk => by
    have := h (26 + k) (by omega)
    rw [Nat.add_assoc]
    exact this

theorem SameSlot.rawName :
    rawName (d' s.sector) s.off = rawName (d s.sector) s.off := by
  refine List.map_congr_left fun i hi => h i ?_
  have := List.mem_range.mp hi
  omega

theorem SameSlot.isEntry (he : IsEntry d s) : IsEntry d' s where
  used := by rw [h 0 (by omega)]; exact he.used
  kept := by rw [h 0 (by omega)]; exact he.kept
  plain := by rw [h 11 (by omega)]; exact he.plain
  named := fun hdot => he.named ⟨hdot.1, by rw [← h.rawName]; exact hdot.2⟩

theorem SameSlot.symm : SameSlot d' d s := fun i hi => (h i hi).symm

end

section
variable (h : Describes g d s o)
include h

theorem Describes.congr (hsame : SameSlot d d' s)
    (hfat : ∀ c ∈ cells o, fatNext g d' c = fatNext g d c) : Describes g d' s o := by
  cases o with
  | none => exact fun he => h (hsame.symm.isEntry he)
  | some item =>
    obtain ⟨he, hdir, hchain⟩ := h
    refine ⟨hsame.isEntry he, ?_, ?_⟩
    · rw [hdir, hsame 11 (by omega)]
    · rw [hsame.first]
      exact hchain.congr hfat

theorem Describes.mem_range (hc : c ∈ cells o) : 2 ≤ c ∧ c < g.clusterEnd := by
  obtain ⟨item, rfl, hc⟩ := mem_cells.mp hc
  exact h.2.2.mem_range hc

theorem Describes.nodup : (cells o).Nodup := by
  cases o with
  | none => exact List.nodup_nil
  | some item => exact h.2.2.nodup

end

/-! ## Trees -/

/-- The slot `s` comes before `s'` in one directory. -/
def Precedes (t : Slot g → Option (Item Nat)) (s s' : Slot g) : Prop :=
  (s.home = s'.home ∧ s.index < s'.index) ∨
    ∃ (y : Slot g) (l : List Nat) (i j c c' : Nat), Held home t y ⟨true, l⟩ ∧ i < j ∧
      l[i]? = some c ∧ l[j]? = some c' ∧ s.home = some c ∧ s'.home = some c'

/-- The volume holds the directory tree `t`; the clusters `pending` are taken and in no chain
yet. -/
structure Tree (g : Layout) (d : Disk) (t : Slot g → Option (Item Nat)) (pending : List Nat) :
    Prop where
  /-- The table has an entry for every cluster. -/
  covers : g.clusterEnd ≤ g.fatEntries
  items : ∀ s, Reach home t s → Describes g d s (t s)
  sound : Sound home t
  free : ∀ c, 2 ≤ c → c < g.clusterEnd → ¬ Owned home t c → c ∉ pending → fatNext g d c = 0
  unlinked : ∀ c ∈ pending, 2 ≤ c ∧ c < g.clusterEnd ∧ fatNext g d c ≠ 0 ∧ ¬ Owned home t c
  mirrored : Mirrored g d
  /-- Behind the end of a directory there are only free slots. -/
  marked : ∀ s s', Reach home t s → Reach home t s' → Precedes t s s' →
    s.byte d 0 = 0 → s'.byte d 0 = 0

/-- Each entry has a finite chain of its own without repetitions, every other cluster is free, and
the copies of the table are equal. -/
def Consistent (g : Layout) (d : Disk) : Prop := ∃ t, Tree g d t []

variable {t : Slot g → Option (Item Nat)} {pending pending' : List Nat}

section
variable (h : Tree g d t pending)
include h

theorem Tree.owned_lt (hc : Owned home t c) : c < g.clusterEnd := by
  obtain ⟨s, item, hs, hmem⟩ := hc
  have hdesc := h.items s hs.1
  exact (hdesc.mem_range (mem_cells.mpr ⟨item, hs.2, hmem⟩)).2

theorem Tree.owned_ne_zero (hc : Owned home t c) : fatNext g d c ≠ 0 := by
  obtain ⟨s, item, hs, hmem⟩ := hc
  have hdesc := h.items s hs.1
  rw [hs.2] at hdesc
  rcases hdesc.2.2 with ⟨-, hnil⟩ | ⟨hlink, hrange⟩
  · rw [hnil] at hmem
    cases hmem
  · exact fat_ne_zero_of_mem hlink (fun c hc => (hrange c hc).1) c hmem

/-- Nothing in the tree changes; clusters outside it are taken or given back. -/
theorem Tree.same
    (hslots : ∀ s, Reach home t s → SameSlot d d' s)
    (hfat : ∀ c, Owned home t c → fatNext g d' c = fatNext g d c)
    (hfree : ∀ c, 2 ≤ c → c < g.clusterEnd → ¬ Owned home t c → c ∉ pending' →
      fatNext g d' c = 0)
    (hpending : ∀ c ∈ pending',
      2 ≤ c ∧ c < g.clusterEnd ∧ fatNext g d' c ≠ 0 ∧ ¬ Owned home t c)
    (hmirrored : Mirrored g d') :
    Tree g d' t pending' where
  covers := h.covers
  items s hs := (h.items s hs).congr (hslots s hs) fun c hc => by
    obtain ⟨item, heq, hmem⟩ := mem_cells.mp hc
    exact hfat c ⟨s, item, ⟨hs, heq⟩, hmem⟩
  sound := h.sound
  free := hfree
  unlinked := hpending
  mirrored := hmirrored
  marked s s' hs hs' hprec hzero := by
    rw [hslots s' hs' 0 (by omega)]
    exact h.marked s s' hs hs' hprec (by rw [← hslots s hs 0 (by omega)]; exact hzero)

end

/-- An edit of clusters that are in no chain leaves the slots of the tree. -/
theorem sameSlot_of_edit {fat : Nat → Nat} {T : Nat → Prop} (hedit : Edit g d d' fat T)
    (hT : ∀ c, T c → 2 ≤ c ∧ ¬ Owned home t c) (hs : Reach home t s) : SameSlot d d' s := by
  refine sameSlot_of_sector (hedit.data _ s.rootStart_le fun c hc => ?_)
  refine not_inCluster (hT c hc).1 fun hhome => (hT c hc).2 (owned_of_reach hs hhome)

/-! ## Rewriting a slot -/

/-- The slot `x` of the tree now holds `new`. -/
structure Rewrites (g : Layout) (d d' : Disk) (t : Slot g → Option (Item Nat)) (x : Slot g)
    (new : Option (Item Nat)) : Prop where
  reach : Reach home t x
  item : Describes g d' x new
  fresh : ∀ c ∈ cells new, c ∈ cells (t x) ∨ ¬ Owned home t c
  emptied : ∀ (s : Slot g) c item, s.home = some c → c ∈ dirCells (t x) → c ∉ dirCells new →
    t s = some item → item.chain = []
  table : ∀ c < g.fatEntries, c ∉ cells (t x) → c ∉ cells new → fatNext g d' c = fatNext g d c
  freed : ∀ c ∈ cells (t x), c ∉ cells new → fatNext g d' c = 0
  slots : ∀ s, s ≠ x → Reach home t s →
    (∀ c, s.home = some c → c ∈ dirCells (t x) → c ∈ dirCells new) → SameSlot d d' s
  mirrored : Mirrored g d'
  used : x.byte d' 0 ≠ 0
  /-- The slots in front of a slot that is newly used are used. -/
  before : x.byte d 0 = 0 → ∀ s, Precedes t s x → s.byte d 0 ≠ 0
  blank : ∀ (s : Slot g) c, s.home = some c → c ∈ dirCells new → c ∉ dirCells (t x) → ¬ IsEntry d' s
  order : ∀ (s s' : Slot g) c, s.home = some c → s'.home = some c → c ∈ dirCells new →
    c ∉ dirCells (t x) → s.index < s'.index → s.byte d' 0 = 0 → s'.byte d' 0 = 0
  cross : ∀ l, new = some ⟨true, l⟩ → ∀ (s s' : Slot g) (i j c c' : Nat), i < j → l[i]? = some c →
    l[j]? = some c' → s.home = some c → s'.home = some c' → s.byte d' 0 = 0 → s'.byte d' 0 = 0

open Classical in
/-- The tree with `new` in the slot `x`, and nothing in what is new of a directory. -/
noncomputable def rewritten (t : Slot g → Option (Item Nat)) (x : Slot g)
    (new : Option (Item Nat)) : Slot g → Option (Item Nat) := fun s =>
  if s = x then new
  else if ∃ c, s.home = some c ∧ c ∈ dirCells new ∧ c ∉ dirCells (t x) then none
  else t s

theorem rewritten_self (t : Slot g → Option (Item Nat)) (x : Slot g) (new : Option (Item Nat)) :
    rewritten t x new x = new := if_pos rfl

variable {x : Slot g} {new : Option (Item Nat)}

section
variable (h : Rewrites g d d' t x new) (hsound : Sound home t)
include h hsound

/-- No slot of the tree lies in what is new of a directory. -/
theorem Rewrites.home_ne (hnew : c ∈ dirCells new) (hold : c ∉ dirCells (t x))
    (hs : Reach home t s) : s.home ≠ some c := by
  intro hhome
  rcases h.fresh c (mem_cells_of_mem_dirCells hnew) with hmem | hfree
  · obtain ⟨y, hy, hc⟩ := hs.home_mem hhome
    have heq := hsound.eq_of_mem_cells hy h.reach (mem_cells_of_mem_dirCells hc) hmem
    exact hold (heq ▸ hc)
  · exact hfree (owned_of_reach hs hhome)

theorem Rewrites.rewritten_of_reach (hne : s ≠ x) (hs : Reach home t s) :
    rewritten t x new s = t s := by
  unfold rewritten
  rw [if_neg hne, if_neg]
  rintro ⟨c, hhome, hnew, hold⟩
  exact h.home_ne hsound hnew hold hs hhome

theorem Rewrites.replaced : Replaced home t (rewritten t x new) x where
  reach := h.reach
  frame s hne hs _ := h.rewritten_of_reach hsound hne hs
  emptied s c item hhome hold hnew := by
    rw [rewritten_self] at hnew
    exact h.emptied s c item hhome hold hnew
  blank s c hhome hnew hold := by
    rw [rewritten_self] at hnew
    have hne : s ≠ x := by
      rintro rfl
      exact h.home_ne hsound hnew hold h.reach hhome
    unfold rewritten
    rw [if_neg hne, if_pos ⟨c, hhome, hnew, hold⟩]
  nodup := by
    rw [rewritten_self]
    exact h.item.nodup
  fresh c hc := by
    rw [rewritten_self] at hc
    exact h.fresh c hc

/-- A slot that is found afterwards lies in what is new of a directory, or it was found before and
is as it was. -/
theorem Rewrites.slot_cases (hs : Reach home (rewritten t x new) s) :
    (∃ c, s.home = some c ∧ c ∈ dirCells new ∧ c ∉ dirCells (t x)) ∨
      (Reach home t s ∧ (s ≠ x → SameSlot d d' s)) := by
  rcases (h.replaced hsound).reach_of hsound hs with ⟨hr, hkeep⟩ | hadded
  · refine .inr ⟨hr, fun hne => h.slots s hne hr fun c hhome hold => ?_⟩
    by_contra hnew
    exact hkeep ⟨c, hhome, hold, by rwa [rewritten_self]⟩
  · unfold Added at hadded
    rw [rewritten_self] at hadded
    exact .inl hadded

end

theorem Rewrites.describes (h : Rewrites g d d' t x new) (htree : Tree g d t pending)
    (hs : Reach home (rewritten t x new) s) : Describes g d' s (rewritten t x new s) := by
  by_cases hx : s = x
  · subst hx
    rw [rewritten_self]
    exact h.item
  rcases h.slot_cases htree.sound hs with ⟨c, hhome, hnew, hold⟩ | ⟨hr, hsame⟩
  · rw [(h.replaced htree.sound).blank s c hhome (by rwa [rewritten_self]) hold]
    exact h.blank s c hhome hnew hold
  · rw [h.rewritten_of_reach htree.sound hx hr]
    have hdesc := htree.items s hr
    refine hdesc.congr (hsame hx) fun c hc => ?_
    refine h.table c (lt_fatEntries htree.covers (hdesc.mem_range hc).2) (fun hold => ?_)
      fun hnew => ?_
    · exact hx (htree.sound.eq_of_mem_cells hr h.reach hc hold)
    · rcases h.fresh c hnew with hold | hfree
      · exact hx (htree.sound.eq_of_mem_cells hr h.reach hc hold)
      · exact hfree (owned_of_mem_cells hr hc)

/-- Behind the end of a directory there are still only free slots. -/
theorem Rewrites.marked (h : Rewrites g d d' t x new) (htree : Tree g d t pending) {s s' : Slot g}
    (hs : Reach home (rewritten t x new) s) (hs' : Reach home (rewritten t x new) s')
    (hprec : Precedes (rewritten t x new) s s') (hzero : s.byte d' 0 = 0) : s'.byte d' 0 = 0 := by
  -- For two slots that were in the tree before, and in this order.
  have hkept (hr : Reach home t s) (hr' : Reach home t s')
      (hsame : s ≠ x → SameSlot d d' s) (hsame' : s' ≠ x → SameSlot d d' s')
      (hold : Precedes t s s') : s'.byte d' 0 = 0 := by
    have hne : s ≠ x := by
      rintro rfl
      exact h.used hzero
    have hzero' : s.byte d 0 = 0 := by rw [← hsame hne 0 (by omega)]; exact hzero
    have hs'zero := htree.marked s s' hr hr' hold hzero'
    by_cases hx : s' = x
    · subst hx
      exact absurd hzero' (h.before hs'zero s hold)
    · rw [hsame' hx 0 (by omega)]
      exact hs'zero
  rcases hprec with ⟨hhome, hindex⟩ | ⟨y, l, i, j, c, c', hy, hij, hi, hj, hc, hc'⟩
  · rcases h.slot_cases htree.sound hs with ⟨c, hc, hnew, hold⟩ | ⟨hr, hsame⟩
    · exact h.order s s' c hc (hhome ▸ hc) hnew hold hindex hzero
    · rcases h.slot_cases htree.sound hs' with ⟨c, hc, hnew, hold⟩ | ⟨hr', hsame'⟩
      · exact absurd (hhome.trans hc) (h.home_ne htree.sound hnew hold hr)
      · exact hkept hr hr' hsame hsame' (.inl ⟨hhome, hindex⟩)
  · rcases (h.replaced htree.sound).held_of htree.sound hy with ⟨rfl, heq⟩ | ⟨hne, hold, -⟩
    · rw [rewritten_self] at heq
      exact h.cross l heq s s' i j c c' hij hi hj hc hc' hzero
    · have hmem : ∀ {a : Nat} {k : Nat}, l[k]? = some a → a ∈ l := fun h => List.mem_of_getElem? h
      have hr : Reach home t s := .sub hold.1 hold.2 (hmem hi) hc
      have hr' : Reach home t s' := .sub hold.1 hold.2 (hmem hj) hc'
      have hsame {u : Slot g} {a : Nat} (hu : Reach home t u) (ha : a ∈ l)
          (hhome : u.home = some a) (hux : u ≠ x) : SameSlot d d' u := by
        refine h.slots u hux hu fun b hb hbx => ?_
        rw [hhome] at hb
        cases hb
        have := htree.sound.eq_of_mem_cells hold.1 h.reach (mem_cells.mpr ⟨_, hold.2, ha⟩)
          (mem_cells_of_mem_dirCells hbx)
        exact absurd this hne
      exact hkept hr hr' (hsame hr (hmem hi) hc) (hsame hr' (hmem hj) hc')
        (.inr ⟨y, l, i, j, c, c', hold, hij, hi, hj, hc, hc'⟩)

/-- **Rewriting one slot.** -/
theorem Tree.rewrite (htree : Tree g d t pending) (h : Rewrites g d d' t x new)
    (hpending : ∀ c ∈ pending, c ∈ cells new ∨ c ∈ pending')
    (hpending' : ∀ c ∈ pending', c ∈ pending ∧ c ∉ cells new) :
    Tree g d' (rewritten t x new) pending' where
  covers := htree.covers
  items _ hs := h.describes htree hs
  sound := (h.replaced htree.sound).sound htree.sound
  free c h2 hlt hfree hnot := by
    rw [(h.replaced htree.sound).owned_iff htree.sound, rewritten_self, not_or, not_and_or,
      not_not] at hfree
    obtain ⟨hfree | hold, hnew⟩ := hfree
    · have hcells : c ∉ cells (t x) := fun hc => hfree (owned_of_mem_cells h.reach hc)
      rw [h.table c (lt_fatEntries htree.covers hlt) hcells hnew]
      exact htree.free c h2 hlt hfree fun hp => (hpending c hp).elim hnew hnot
    · exact h.freed c hold hnew
  unlinked c hc := by
    obtain ⟨hmem, hnew⟩ := hpending' c hc
    obtain ⟨h2, hlt, hne, hfree⟩ := htree.unlinked c hmem
    have hcells : c ∉ cells (t x) := fun hc => hfree (owned_of_mem_cells h.reach hc)
    refine ⟨h2, hlt, ?_, ?_⟩
    · rw [h.table c (lt_fatEntries htree.covers hlt) hcells hnew]
      exact hne
    · rw [(h.replaced htree.sound).owned_iff htree.sound, rewritten_self, not_or, not_and_or]
      exact ⟨.inl hfree, hnew⟩
  mirrored := h.mirrored
  marked _ _ hs hs' hprec hzero := h.marked htree hs hs' hprec hzero

end IndexOS.Lateran.Fat16
