import Mathlib.Data.List.Nodup

/-!
# Trees of directories that are chains

A store in which everything, files and directories alike, is a chain of cells.  A slot of a
directory holds an item, which has a chain of its own, and the slots of a directory lie in the cells
of its chain; only the root directory lies outside the cells.

* `Reach` — the slots of directories that are found from the root;
* `Sound` — no cell is in two chains of items that are found;
* `Replaced` — the item in one slot is replaced: by nothing, by something with fresh cells, or by
  the same directory with more of them;
* `Replaced.sound`, `Replaced.owned_iff` — what that does to the tree.

The types of slots and cells are arbitrary.
-/

set_option autoImplicit false

namespace IndexOS.ChainTree

/-- A file or a directory. -/
structure Item (κ : Type) where
  isDir : Bool
  chain : List κ

variable {σ κ : Type} (home : σ → Option κ)

/-- The slots of directories that are found from the root; `home` is the cell a slot lies in. -/
inductive Reach (t : σ → Option (Item κ)) : σ → Prop
  | root {s : σ} : home s = none → Reach t s
  | sub {s s' : σ} {l : List κ} {c : κ} :
      Reach t s' → t s' = some ⟨true, l⟩ → c ∈ l → home s = some c → Reach t s

/-- The item is found in this slot. -/
def Held (t : σ → Option (Item κ)) (s : σ) (item : Item κ) : Prop :=
    Reach home t s ∧ t s = some item

/-- The cell is in the chain of an item that is found. -/
def Owned (t : σ → Option (Item κ)) (c : κ) : Prop := ∃ s item, Held home t s item ∧ c ∈ item.chain

/-- No cell is in two places. -/
structure Sound (t : σ → Option (Item κ)) : Prop where
  nodup : ∀ s item, Held home t s item → item.chain.Nodup
  owner : ∀ s s' item item' c, Held home t s item → Held home t s' item' → c ∈ item.chain →
    c ∈ item'.chain → s = s'

/-- The cells of what is in a slot. -/
def cells (o : Option (Item κ)) : List κ := (o.map Item.chain).getD []

/-- The cells of a directory in a slot. -/
def dirCells : Option (Item κ) → List κ
  | some ⟨true, l⟩ => l
  | _ => []

variable {c : κ} {o : Option (Item κ)}

theorem mem_cells_of_mem_dirCells (h : c ∈ dirCells o) : c ∈ cells o := by
  match o, h with
  | some ⟨true, _⟩, h => exact h

theorem mem_dirCells :
    c ∈ dirCells o ↔ ∃ l, o = some ⟨true, l⟩ ∧ c ∈ l := by
  match o with
  | none => simp [dirCells]
  | some ⟨false, _⟩ => simp [dirCells]
  | some ⟨true, l⟩ => simp [dirCells]

theorem mem_cells :
    c ∈ cells o ↔ ∃ item, o = some item ∧ c ∈ item.chain := by
  cases o <;> simp [cells]

/-- The slot `x` changes from what it holds in `t` to what it holds in `t'`. -/
structure Replaced (t t' : σ → Option (Item κ)) (x : σ) : Prop where
  reach : Reach home t x
  /-- The other slots stay as they are, unless they were in a directory that is given up. -/
  frame : ∀ s, s ≠ x → Reach home t s →
    (∀ c, home s = some c → c ∈ dirCells (t x) → c ∈ dirCells (t' x)) → t' s = t s
  /-- A directory that is given up has nothing with cells in it. -/
  emptied : ∀ s c item, home s = some c → c ∈ dirCells (t x) → c ∉ dirCells (t' x) →
    t s = some item → item.chain = []
  /-- The new part of a directory is empty. -/
  blank : ∀ s c, home s = some c → c ∈ dirCells (t' x) → c ∉ dirCells (t x) → t' s = none
  nodup : (cells (t' x)).Nodup
  fresh : ∀ c ∈ cells (t' x), c ∈ cells (t x) ∨ ¬ Owned home t c

variable {home} {t t' : σ → Option (Item κ)} {x s : σ} {item : Item κ}

theorem Held.owned (h : Held home t s item) (hc : c ∈ item.chain) :
    Owned home t c := ⟨s, item, h, hc⟩

section
variable (h : Reach home t s)
include h

/-- The cell that a slot lies in belongs to a directory. -/
theorem Reach.home_mem (hs : home s = some c) :
    ∃ s', Reach home t s' ∧ c ∈ dirCells (t s') := by
  cases h with
  | root h => rw [hs] at h; cases h
  | sub hr ht hc hs' =>
    rw [hs'] at hs
    cases hs
    exact ⟨_, hr, mem_dirCells.mpr ⟨_, ht, hc⟩⟩

theorem owned_of_mem_cells (hc : c ∈ cells (t s)) : Owned home t c := by
  obtain ⟨item, heq, hmem⟩ := mem_cells.mp hc
  exact ⟨s, item, ⟨h, heq⟩, hmem⟩

theorem owned_of_reach (hs : home s = some c) : Owned home t c := by
  obtain ⟨s', hr, hc⟩ := h.home_mem hs
  exact owned_of_mem_cells hr (mem_cells_of_mem_dirCells hc)

end

/-- No cell is in what two slots hold. -/
theorem Sound.eq_of_mem_cells (h : Sound home t) {s' : σ} (hs : Reach home t s)
    (hs' : Reach home t s') (hc : c ∈ cells (t s)) (hc' : c ∈ cells (t s')) : s = s' := by
  obtain ⟨item, heq, hmem⟩ := mem_cells.mp hc
  obtain ⟨item', heq', hmem'⟩ := mem_cells.mp hc'
  exact h.owner _ _ _ _ c ⟨hs, heq⟩ ⟨hs', heq'⟩ hmem hmem'

/-- A directory does not lie in itself. -/
theorem Sound.not_mem_self (h : Sound home t) (hs : Reach home t s) :
    ∀ c, home s = some c → c ∉ dirCells (t s) := by
  induction hs with
  | root hnone => intro c hc; rw [hnone] at hc; cases hc
  | @sub s s' l c hr ht hc hs ih =>
    intro c' hc' hmem
    rw [hs] at hc'
    obtain rfl := Option.some.inj hc'
    obtain ⟨l', ht', hc'⟩ := mem_dirCells.mp hmem
    -- The cell is in the chain of both, so the directory around `s` is `s`.
    have heq : s = s' := h.owner _ _ _ _ c ⟨.sub hr ht hc hs, ht'⟩ ⟨hr, ht⟩ hc' hc
    subst heq
    exact ih c hs hmem

/-- The slot lies in a directory, or a part of one, that is given up. -/
def GivenUp (home : σ → Option κ) (t t' : σ → Option (Item κ)) (x s : σ) : Prop :=
  ∃ c, home s = some c ∧ c ∈ dirCells (t x) ∧ c ∉ dirCells (t' x)

/-- The slot lies in what is new of a directory. -/
def Added (home : σ → Option κ) (t t' : σ → Option (Item κ)) (x s : σ) : Prop :=
  ∃ c, home s = some c ∧ c ∈ dirCells (t' x) ∧ c ∉ dirCells (t x)

section
variable (h : Replaced home t t' x)
include h

theorem Replaced.eq_none_of_added (hs : Added home t t' x s) :
    t' s = none := by
  obtain ⟨c, hc, hnew, hold⟩ := hs
  exact h.blank s c hc hnew hold

theorem Replaced.frame_of_not_givenUp (hne : s ≠ x) (hs : Reach home t s)
    (hkeep : ¬ GivenUp home t t' x s) : t' s = t s :=
  h.frame s hne hs fun c hc hmem => by_contra fun hnot => hkeep ⟨c, hc, hmem, hnot⟩

theorem Replaced.not_givenUp_self (hsound : Sound home t) :
    ¬ GivenUp home t t' x x :=
  fun ⟨c, hc, hmem, _⟩ => hsound.not_mem_self h.reach c hc hmem

/-- What is found afterwards was found before, or is in the new part of the directory. -/
theorem Replaced.reach_of (hsound : Sound home t) (hs : Reach home t' s) :
    (Reach home t s ∧ ¬ GivenUp home t t' x s) ∨ Added home t t' x s := by
  induction hs with
  | root hnone => exact .inl ⟨.root hnone, fun ⟨c, hc, _⟩ => by rw [hnone] at hc; cases hc⟩
  | @sub s s' l c hr ht hc hs ih =>
    rcases ih with ⟨hr', hkeep⟩ | hblank
    · by_cases hx : s' = x
      · subst hx
        have hnew : c ∈ dirCells (t' s') := mem_dirCells.mpr ⟨l, ht, hc⟩
        by_cases hold : c ∈ dirCells (t s')
        · obtain ⟨l', ht', hc'⟩ := mem_dirCells.mp hold
          refine .inl ⟨.sub hr' ht' hc' hs, fun ⟨c', hc'', _, hnot⟩ => ?_⟩
          rw [hs] at hc''
          cases hc''
          exact hnot hnew
        · exact .inr ⟨c, hs, hnew, hold⟩
      · rw [h.frame_of_not_givenUp hx hr' hkeep] at ht
        refine .inl ⟨.sub hr' ht hc hs, fun ⟨c', hc', hmem, _⟩ => hx ?_⟩
        rw [hs] at hc'
        cases hc'
        obtain ⟨l', ht', hcl⟩ := mem_dirCells.mp hmem
        exact hsound.owner _ _ _ _ c ⟨hr', ht⟩ ⟨h.reach, ht'⟩ hc hcl
    · rw [h.eq_none_of_added hblank] at ht
      cases ht

/-- What was found before is found afterwards, unless its directory is given up. -/
theorem Replaced.reach_mono (hs : Reach home t s)
    (hkeep : ¬ GivenUp home t t' x s) : Reach home t' s := by
  induction hs with
  | root hnone => exact .root hnone
  | @sub s s' l c hr ht hc hs ih =>
    -- A directory in one that is given up has no cells, so there is nothing in it.
    have hkeep' : ¬ GivenUp home t t' x s' := by
      rintro ⟨c', hc', hmem, hnot⟩
      have := h.emptied s' c' _ hc' hmem hnot ht
      subst this
      cases hc
    by_cases hx : s' = x
    · subst hx
      have hnew : c ∈ dirCells (t' s') := by_contra fun hnot =>
        hkeep ⟨c, hs, mem_dirCells.mpr ⟨l, ht, hc⟩, hnot⟩
      obtain ⟨l', ht', hc'⟩ := mem_dirCells.mp hnew
      exact .sub (ih hkeep') ht' hc' hs
    · exact .sub (ih hkeep') (by rw [h.frame_of_not_givenUp hx hr hkeep']; exact ht) hc hs

variable (hsound : Sound home t)
include hsound

theorem Replaced.reach_self : Reach home t' x :=
  h.reach_mono h.reach (h.not_givenUp_self hsound)

/-- The items that are found afterwards. -/
theorem Replaced.held_of
    (hs : Held home t' s item) :
    (s = x ∧ t' x = some item) ∨
      (s ≠ x ∧ Held home t s item ∧ ¬ GivenUp home t t' x s) := by
  by_cases hx : s = x
  · subst hx
    exact .inl ⟨rfl, hs.2⟩
  · rcases h.reach_of hsound hs.1 with ⟨hr, hkeep⟩ | hblank
    · refine .inr ⟨hx, ⟨hr, ?_⟩, hkeep⟩
      rw [← h.frame_of_not_givenUp hx hr hkeep]
      exact hs.2
    · have := h.eq_none_of_added hblank
      rw [hs.2] at this
      cases this

/-- A new cell is in no other chain. -/
theorem Replaced.fresh_not_mem
    (hs : Held home t s item) (hx : s ≠ x) (hc : c ∈ item.chain) : c ∉ cells (t' x) := by
  intro hnew
  rcases h.fresh c hnew with hold | hfree
  · obtain ⟨item', ht', hc'⟩ := mem_cells.mp hold
    exact hx (hsound.owner _ _ _ _ c hs ⟨h.reach, ht'⟩ hc hc')
  · exact hfree (hs.owned hc)

theorem Replaced.sound : Sound home t' where
  nodup s item hs := by
    rcases h.held_of hsound hs with ⟨rfl, heq⟩ | ⟨-, hold, -⟩
    · have := h.nodup
      rw [heq] at this
      exact this
    · exact hsound.nodup s item hold
  owner s s' item item' c hs hs' hc hc' := by
    have hcells {i : Item κ} (heq : t' x = some i) (hi : c ∈ i.chain) : c ∈ cells (t' x) :=
      mem_cells.mpr ⟨i, heq, hi⟩
    rcases h.held_of hsound hs with ⟨rfl, heq⟩ | ⟨hx, hold, -⟩ <;>
      rcases h.held_of hsound hs' with ⟨rfl, heq'⟩ | ⟨hx', hold', -⟩
    · rfl
    · exact absurd (hcells heq hc) (h.fresh_not_mem hsound hold' hx' hc')
    · exact absurd (hcells heq' hc') (h.fresh_not_mem hsound hold hx hc)
    · exact hsound.owner _ _ _ _ c hold hold' hc hc'

/-- The cells in use change by those of the replaced item. -/
theorem Replaced.owned_iff (c : κ) :
    Owned home t' c ↔ (Owned home t c ∧ c ∉ cells (t x)) ∨ c ∈ cells (t' x) := by
  constructor
  · rintro ⟨s, item, hs, hc⟩
    rcases h.held_of hsound hs with ⟨rfl, heq⟩ | ⟨hx, hold, -⟩
    · exact .inr (mem_cells.mpr ⟨item, heq, hc⟩)
    · refine .inl ⟨hold.owned hc, fun hmem => hx ?_⟩
      obtain ⟨item', ht', hc'⟩ := mem_cells.mp hmem
      exact hsound.owner _ _ _ _ c hold ⟨h.reach, ht'⟩ hc hc'
  · rintro (⟨⟨s, item, hs, hc⟩, hnot⟩ | hmem)
    · have hx : s ≠ x := by
        rintro rfl
        exact hnot (mem_cells.mpr ⟨item, hs.2, hc⟩)
      have hkeep : ¬ GivenUp home t t' x s := by
        rintro ⟨c', hc', hmem', hnot'⟩
        rw [h.emptied s c' item hc' hmem' hnot' hs.2] at hc
        cases hc
      refine ⟨s, item, ⟨h.reach_mono hs.1 hkeep, ?_⟩, hc⟩
      rw [h.frame_of_not_givenUp hx hs.1 hkeep]
      exact hs.2
    · obtain ⟨item, heq, hc⟩ := mem_cells.mp hmem
      exact ⟨x, item, ⟨h.reach_self hsound, heq⟩, hc⟩

end

end IndexOS.ChainTree
