import IndexOS.Lateran.Fat16
import IndexOS.Lib.LinkedList
import Mathlib.Data.List.Range

/-!
# What the table operations do

The allocation table and the directories lie in different sectors, and so do the clusters.  `Edit`
says what a piece of code has changed: the table is now a given function, and outside a given set of
clusters the sectors behind the table are as they were.  `fat_set`, `alloc_cluster`, `free_chain`
and the loop that fills the clusters of a file have one such lemma each.

`Grown` is the invariant of that loop: the clusters it has taken form a chain of clusters that were
free.  When it fails it frees them, and the table is the one it started from (`Grown.rollback`);
it does not fail if there are enough free clusters (`writeChain_isSome`).
-/

set_option autoImplicit false

namespace IndexOS
open List

variable {first : Nat} {c : Nat} {fat : Nat → Nat} {l : List Nat}

namespace Lateran
namespace Fat16

open Function (update update_of_ne update_self)
open LittleEndian LinkedList

variable {g : Layout} {d d' : Disk} {T T' : Nat → Prop}

/-- The number of entries of the table. -/
def Layout.fatEntries (g : Layout) : Nat := 256 * g.fatSize

/-- All copies of the table are equal. -/
def Mirrored (g : Layout) (d : Disk) : Prop :=
  ∀ f < g.numFats, ∀ i < g.fatSize, ∀ j < kSector,
    d (g.fatStart + f * g.fatSize + i) j = d (g.fatStart + i) j

/-- The sector is one of the cluster. -/
def InCluster (g : Layout) (c s : Nat) : Prop :=
  g.clusterFirstSector c ≤ s ∧ s < g.clusterFirstSector c + g.sectorsPerCluster

/-- The table has become `fat`, and only the data of the clusters `touched` may have changed. -/
structure Edit (g : Layout) (d d' : Disk) (fat : Nat → Nat) (touched : Nat → Prop) : Prop where
  fat_eq : ∀ c < g.fatEntries, fatNext g d' c = fat c
  data : ∀ s, g.rootStart ≤ s → (∀ c, touched c → ¬ InCluster g c s) → d' s = d s
  mirrored : Mirrored g d → Mirrored g d'

theorem Edit.trans {d'' : Disk} {fat fat' : Nat → Nat} (h : Edit g d d' fat T)
    (h' : Edit g d' d'' fat' T') : Edit g d d'' fat' (fun c => T c ∨ T' c) where
  fat_eq := h'.fat_eq
  data s hs hout := by
    rw [h'.data s hs fun c hc => hout c (.inr hc), h.data s hs fun c hc => hout c (.inl hc)]
  mirrored hm := h'.mirrored (h.mirrored hm)

theorem Edit.mono {fat fat' : Nat → Nat} (h : Edit g d d' fat T)
    (hfat : ∀ c < g.fatEntries, fat c = fat' c) (hT : ∀ c, T c → T' c) : Edit g d d' fat' T' where
  fat_eq c hc := (h.fat_eq c hc).trans (hfat c hc)
  data s hs hout := h.data s hs fun c hc => hout c (hT c hc)
  mirrored := h.mirrored

/-! ## Setting an entry -/

/-- The sector is the one of entry `c` in the copy `f` of the table. -/
def fatSector (g : Layout) (c f : Nat) : Nat := g.fatStart + f * g.fatSize + c * 2 / kSector

theorem fatSector_injective (c : Nat) : Function.Injective (fatSector g c) := by
  intro f f' h
  have hmul : f * g.fatSize = f' * g.fatSize := by
    unfold fatSector at h
    omega
  exact Nat.eq_of_mul_eq_mul_right g.fatSize_pos hmul

theorem foldl_fatSetCopy (c v n : Nat) (d : Disk) (s : Nat) :
    (range n).foldl (fatSetCopy g c v) d s =
      if ∃ f < n, s = fatSector g c f then wr16 (d s) (c * 2 % kSector) v else d s := by
  induction n with
  | zero => simp
  | succ n ih =>
    rw [range_succ, foldl_append, foldl_cons]
    change update _ (fatSector g c n) _ s = _
    by_cases hs : s = fatSector g c n
    · subst hs
      rw [update_self, if_pos ⟨n, Nat.lt_succ_self n, rfl⟩]
      change wr16 ((range n).foldl (fatSetCopy g c v) d (fatSector g c n)) _ _ = _
      rw [ih, if_neg]
      rintro ⟨f, hf, heq⟩
      exact absurd (fatSector_injective c heq) (by omega)
    · rw [update_of_ne hs, ih]
      congr 1
      simp only [eq_iff_iff]
      constructor
      · rintro ⟨f, hf, heq⟩
        exact ⟨f, by omega, heq⟩
      · rintro ⟨f, hf, heq⟩
        refine ⟨f, lt_of_le_of_ne (Nat.le_of_lt_succ hf) ?_, heq⟩
        rintro rfl
        exact hs heq

theorem fatSet_apply (c v s : Nat) :
    fatSet g d c v s =
      if ∃ f < g.numFats, s = fatSector g c f then wr16 (d s) (c * 2 % kSector) v else d s :=
  foldl_fatSetCopy c v g.numFats d s

theorem entry_sector_lt (hc : c < g.fatEntries) : c * 2 / kSector < g.fatSize := by
  unfold Layout.fatEntries at hc
  unfold kSector
  omega

/-- A sector of the first copy that belongs to another copy's sector of an entry is the entry's. -/
theorem sector_of_copy {c i f : Nat} (hi : i < g.fatSize)
    (h : g.fatStart + i = fatSector g c f) : i = c * 2 / kSector := by
  unfold fatSector kSector at *
  cases f with
  | zero => omega
  | succ f =>
    rw [Nat.succ_mul] at h
    omega

theorem edit_fatSet (d : Disk) {c v : Nat} (hc : c < g.fatEntries) (hv : v < 2 ^ 16) :
    Edit g d (fatSet g d c v) (update (fatNext g d) c v) (fun _ => False) where
  fat_eq c' hc' := by
    simp only [fatNext]
    rw [fatSet_apply]
    by_cases hsec : c' * 2 / kSector = c * 2 / kSector
    · rw [if_pos ⟨0, g.numFats_pos, by unfold fatSector; omega⟩]
      by_cases heq : c' = c
      · subst heq
        rw [update_self, rd16_wr16_self, Nat.mod_eq_of_lt hv]
      · rw [update_of_ne heq]
        refine rd16_wr16_of_disjoint ?_
        unfold kSector at *
        omega
    · have hnone : ¬ ∃ f < g.numFats, g.fatStart + c' * 2 / kSector = fatSector g c f := by
        rintro ⟨f, -, heq⟩
        exact hsec (sector_of_copy (entry_sector_lt hc') heq)
      rw [if_neg hnone, update_of_ne (fun heq => hsec (by rw [heq]))]
      rfl
  data s hs _ := by
    rw [fatSet_apply, if_neg]
    rintro ⟨f, hf, rfl⟩
    have h1 := entry_sector_lt hc
    have h2 : (f + 1) * g.fatSize ≤ g.numFats * g.fatSize := Nat.mul_le_mul_right _ hf
    rw [Nat.succ_mul] at h2
    unfold Layout.rootStart at hs
    unfold fatSector Layout.fatStart at hs
    omega
  mirrored hm f hf i hi j hj := by
    rw [fatSet_apply, fatSet_apply]
    by_cases hsec : i = c * 2 / kSector
    · subst hsec
      rw [if_pos ⟨f, hf, rfl⟩, if_pos ⟨0, g.numFats_pos, by unfold fatSector; omega⟩]
      have hbase := hm f hf _ hi
      simp only [wr16]
      split
      · rfl
      · split
        · rfl
        · exact hbase j hj
    · rw [if_neg, if_neg, hm f hf i hi j hj]
      · rintro ⟨f', -, heq⟩
        exact hsec (sector_of_copy hi heq)
      · rintro ⟨f', -, heq⟩
        apply hsec
        -- Both lie in the same copy.
        have h1 := entry_sector_lt hc
        have hff : f = f' := by
          have hdiv : ∀ a b, b < g.fatSize → (a * g.fatSize + b) / g.fatSize = a := fun a b hb => by
            rw [Nat.mul_comm, Nat.mul_add_div g.fatSize_pos, Nat.div_eq_of_lt hb, Nat.add_zero]
          rw [← hdiv f i hi, ← hdiv f' _ h1]
          congr 1
          unfold fatSector at heq
          omega
        subst hff
        unfold fatSector at heq
        omega

/-! ## Taking a cluster -/

variable (hcover : g.clusterEnd ≤ g.fatEntries)

include hcover in
theorem lt_fatEntries (hc : c < g.clusterEnd) : c < g.fatEntries := lt_of_lt_of_le hc hcover

theorem rootStart_le_of_inCluster {c s : Nat} (h : InCluster g c s) : g.rootStart ≤ s := by
  have := h.1
  unfold Layout.clusterFirstSector Layout.dataStart at this
  omega

/-- A sector behind the table is written. -/
theorem fatNext_update (d : Disk) {c s : Nat} (buf : Buf) (hc : c < g.fatEntries)
    (hs : g.rootStart ≤ s) : fatNext g (update d s buf) c = fatNext g d c := by
  have h1 := entry_sector_lt hc
  have h2 := Nat.mul_le_mul_right g.fatSize g.numFats_pos
  unfold fatNext
  rw [update_of_ne]
  unfold Layout.rootStart at hs
  unfold Layout.fatStart
  omega

theorem Mirrored.update (hm : Mirrored g d) {s : Nat} (buf : Buf) (hs : g.rootStart ≤ s) :
    Mirrored g (update d s buf) := by
  intro f hf i hi j hj
  have h1 : (f + 1) * g.fatSize ≤ g.numFats * g.fatSize := Nat.mul_le_mul_right _ hf
  rw [Nat.succ_mul] at h1
  unfold Layout.rootStart at hs
  rw [update_of_ne (by unfold Layout.fatStart; omega),
    update_of_ne (by unfold Layout.fatStart; omega)]
  exact hm f hf i hi j hj

/-- A sector of a cluster is written. -/
theorem edit_data (d : Disk) {c s : Nat} (buf : Buf) (hs : InCluster g c s) :
    Edit g d (update d s buf) (fatNext g d) (· = c) where
  fat_eq _ hc' := fatNext_update d buf hc' (rootStart_le_of_inCluster hs)
  data s' _ hout := by
    rw [update_of_ne]
    rintro rfl
    exact hout c rfl hs
  mirrored hm := hm.update buf (rootStart_le_of_inCluster hs)

theorem inCluster_add {c s : Nat} (hs : s < g.sectorsPerCluster) :
    InCluster g c (g.clusterFirstSector c + s) :=
  ⟨Nat.le_add_right _ _, Nat.add_lt_add_left hs _⟩

theorem edit_refl (d : Disk) (T : Nat → Prop) : Edit g d d (fatNext g d) T :=
  ⟨fun _ _ => rfl, fun _ _ _ => rfl, id⟩

theorem edit_zeroCluster (d : Disk) (c : Nat) :
    Edit g d (zeroCluster g d c) (fatNext g d) (· = c) := by
  have hle : ∀ n, n ≤ g.sectorsPerCluster → Edit g d
      ((range n).foldl
        (fun d s => update d (g.clusterFirstSector c + s) fun _ => 0) d)
      (fatNext g d) (· = c) := by
    intro n
    induction n with
    | zero => exact fun _ => edit_refl d _
    | succ n ih =>
      intro hn
      rw [range_succ, foldl_append, foldl_cons]
      have hprev := ih (by omega)
      exact (hprev.trans (edit_data _ _ (inCluster_add hn))).mono
        (fun c hc => hprev.fat_eq c hc) (fun c hc => hc.elim id id)
  exact hle _ (le_refl _)

theorem zeroCluster_apply (d : Disk) {c s : Nat} (hs : InCluster g c s) :
    zeroCluster g d c s = fun _ => 0 := by
  unfold zeroCluster
  have hlt : s < g.clusterFirstSector c + g.sectorsPerCluster := hs.2
  have hle := hs.1
  generalize g.sectorsPerCluster = n at hlt
  induction n with
  | zero => omega
  | succ n ih =>
    rw [range_succ, foldl_append, foldl_cons, foldl_nil]
    by_cases heq : s = g.clusterFirstSector c + n
    · rw [heq, update_self]
    · rw [update_of_ne heq]
      exact ih (by omega)

/-- What `alloc_cluster` returns when it finds a free cluster. -/
structure Allocated (g : Layout) (d d' : Disk) (c : Nat) : Prop where
  two_le : 2 ≤ c
  lt : c < g.clusterEnd
  free : fatNext g d c = 0
  edit : Edit g d d' (update (fatNext g d) c 0xFFFF) (· = c)
  zeros : ∀ s, InCluster g c s → d' s = fun _ => 0

include hcover in
theorem allocFrom_spec (n c : Nat) (hc : 2 ≤ c) (hn : c + n ≤ g.clusterEnd ∨ n = 0) :
    ((allocFrom g d n c).1 = 0 ∧ (allocFrom g d n c).2 = d ∧
        ∀ c', c ≤ c' → c' < c + n → fatNext g d c' ≠ 0) ∨
      Allocated g d (allocFrom g d n c).2 (allocFrom g d n c).1 := by
  induction n generalizing c with
  | zero => exact .inl ⟨rfl, rfl, fun c' h1 h2 => by omega⟩
  | succ n ih =>
    unfold allocFrom
    split
    case isTrue hfree =>
      have hlt : c < g.clusterEnd := by omega
      have hset := edit_fatSet d (lt_fatEntries hcover hlt) (by decide : 0xFFFF < 2 ^ 16)
      refine .inr ⟨hc, hlt, hfree, ?_, fun s hs => zeroCluster_apply _ hs⟩
      exact (hset.trans (edit_zeroCluster _ c)).mono (fun c' hc' => hset.fat_eq c' hc')
        fun c' h => h.elim False.elim id
    case isFalse hused =>
      rcases ih (c + 1) (by omega) (by omega) with ⟨h1, h2, h3⟩ | h
      · refine .inl ⟨h1, h2, fun c' hle hlt => ?_⟩
        rcases eq_or_lt_of_le hle with rfl | hgt
        · exact hused
        · exact h3 c' hgt (by omega)
      · exact .inr h

include hcover in
/-- `alloc_cluster` -/
theorem allocCluster_spec :
    ((allocCluster g d).1 = 0 ∧ (allocCluster g d).2 = d ∧
        ∀ c, 2 ≤ c → c < g.clusterEnd → fatNext g d c ≠ 0) ∨
      Allocated g d (allocCluster g d).2 (allocCluster g d).1 := by
  rcases allocFrom_spec (d := d) hcover (g.clusterEnd - 2) 2 (le_refl 2) (by omega) with
    ⟨h1, h2, h3⟩ | h
  · exact .inl ⟨h1, h2, fun c hle hlt => h3 c hle (by omega)⟩
  · exact .inr h

/-! ## Chains -/

/-- The value ends a chain. -/
def EndOfChain (c : Nat) : Prop := 0xFFF8 ≤ c

/-- The clusters `l` are the chain that starts at `first`; a file without clusters starts at 0. -/
def Chain (g : Layout) (fat : Nat → Nat) (first : Nat) (l : List Nat) : Prop :=
  (first = 0 ∧ l = []) ∨
    (Linked fat EndOfChain first l ∧ ∀ c ∈ l, 2 ≤ c ∧ c < g.totalClusters + 2)

theorem Chain.nodup (h : Chain g fat first l) : l.Nodup := by
  rcases h with ⟨-, rfl⟩ | ⟨h, -⟩
  · exact nodup_nil
  · exact h.nodup

theorem not_stop_of_mem {p : Nat} (h : Linked fat EndOfChain p l) : ∀ c ∈ l, c < 0xFFF8 :=
  fun _ hc => Nat.lt_of_not_le (h.not_stop hc)

theorem not_end_of_lt (hc : c < g.clusterEnd) : ¬ EndOfChain c :=
  Nat.not_le.mpr (lt_of_lt_of_le hc (Nat.min_le_right _ _))

theorem Chain.mem_range {first c : Nat} (h : Chain g fat first l) (hc : c ∈ l) :
    2 ≤ c ∧ c < g.clusterEnd := by
  rcases h with ⟨-, rfl⟩ | ⟨h, hmem⟩
  · cases hc
  · have h1 := hmem c hc
    have h2 := not_stop_of_mem h c hc
    unfold Layout.clusterEnd
    omega

theorem Chain.congr {fat fat' : Nat → Nat} (h : Chain g fat first l)
    (heq : ∀ c ∈ l, fat' c = fat c) : Chain g fat' first l := by
  rcases h with h | ⟨h, hmem⟩
  · exact .inl h
  · exact .inr ⟨h.congr heq, hmem⟩

/-- Only a file without clusters starts at 0. -/
theorem Chain.eq_nil (h : Chain g fat 0 l) : l = [] := by
  rcases h with ⟨-, h⟩ | ⟨hlink, hmem⟩
  · exact h
  · cases l with
    | nil => rfl
    | cons x l =>
      have h2 := (hmem x mem_cons_self).1
      have hx : 0 = x := hlink.1
      omega

/-- A chain has at most as many clusters as there are numbers for them. -/
theorem length_le_of_nodup (hl : l.Nodup) (hlt : ∀ c ∈ l, c < 0xFFF8) : l.length ≤ 0xFFF8 := by
  have h := (hl.subperm fun c hc => mem_range.mpr (hlt c hc)).length_le
  rwa [length_range] at h

include hcover in
theorem freeChainLoop_spec (l : List Nat) (n : Nat) (hn : l.length < n) (d : Disk) (p : Nat)
    (hlink : Linked (fatNext g d) EndOfChain p l)
    (hmem : ∀ c ∈ l, 2 ≤ c ∧ c < g.clusterEnd) :
    Edit g d (freeChainLoop g n d p) (fun c => if c ∈ l then 0 else fatNext g d c)
      (fun _ => False) := by
  induction l generalizing n d p with
  | nil =>
    obtain ⟨n, rfl⟩ : ∃ m, n = m + 1 := ⟨n - 1, by simp at hn; omega⟩
    have hend : 0xFFF8 ≤ p := hlink
    unfold freeChainLoop
    rw [if_neg (by omega)]
    exact (edit_refl d _).mono (by simp) (fun _ h => h)
  | cons x l ih =>
    obtain ⟨n, rfl⟩ : ∃ m, n = m + 1 := ⟨n - 1, by omega⟩
    have hnodup := hlink.nodup
    have hx := not_stop_of_mem hlink x mem_cons_self
    obtain ⟨rfl, -, hrest⟩ := hlink
    obtain ⟨h2, hlt⟩ := hmem p mem_cons_self
    unfold freeChainLoop
    rw [if_pos ⟨h2, hx⟩]
    have hnot := (nodup_cons.mp hnodup).1
    have hset := edit_fatSet d (lt_fatEntries hcover hlt) (by decide : 0 < 2 ^ 16)
    have hsame : ∀ c ∈ l, fatNext g (fatSet g d p 0) c = fatNext g d c := fun c hc => by
      have hne : c ≠ p := fun heq => hnot (heq ▸ hc)
      rw [hset.fat_eq c (lt_fatEntries hcover (hmem c (mem_cons_of_mem _ hc)).2),
        update_of_ne hne]
    have hih := ih n (by simpa using hn) (fatSet g d p 0) (fatNext g d p) (hrest.congr hsame)
      fun c hc => hmem c (mem_cons_of_mem _ hc)
    refine (hset.trans hih).mono (fun c hc => ?_) (fun c h => h.elim id id)
    by_cases hcp : c = p
    · subst hcp
      simp only [if_neg hnot, mem_cons_self, if_true]
      rw [hset.fat_eq c hc, update_self]
    · simp only [mem_cons, hcp, false_or]
      split
      · rfl
      · rw [hset.fat_eq c hc, update_of_ne hcp]

include hcover in
/-- `free_chain` -/
theorem edit_freeChain (h : Chain g (fatNext g d) first l) :
    Edit g d (freeChain g d first) (fun c => if c ∈ l then 0 else fatNext g d c)
      (fun _ => False) := by
  have hrange := fun c hc => h.mem_range (c := c) hc
  rcases h with ⟨rfl, rfl⟩ | ⟨hlink, hmem⟩
  · have hfree : freeChain g d 0 = d := by
      unfold freeChain freeChainLoop
      rw [if_neg (by omega)]
    rw [hfree]
    exact (edit_refl d _).mono (by simp) (fun _ h => h)
  · have hlen := length_le_of_nodup hlink.nodup (not_stop_of_mem hlink)
    exact freeChainLoop_spec hcover l 100000 (by omega) d first hlink hrange

/-! ## Filling clusters -/

theorem edit_writeSectors (c : Nat) (ss : List Nat) (hss : ∀ s ∈ ss, s < g.sectorsPerCluster)
    (d : Disk) (data : List UInt8) :
    Edit g d (writeSectors g c ss d data).1 (fatNext g d) (· = c) := by
  induction ss generalizing d data with
  | nil => exact edit_refl d _
  | cons s ss ih =>
    unfold writeSectors
    split
    · exact edit_refl d _
    · have hone := edit_data d (sectorOf data) (inCluster_add (c := c) (hss s mem_cons_self))
      exact (hone.trans (ih (fun s hs => hss s (mem_cons_of_mem _ hs)) _ _)).mono
        (fun c hc => hone.fat_eq c hc) (fun c h => h.elim id id)

theorem writeSectors_rest (c : Nat) (ss : List Nat) (d : Disk) (data : List UInt8) :
    (writeSectors g c ss d data).2 = data.drop (kSector * ss.length) := by
  induction ss generalizing d data with
  | nil => rfl
  | cons s ss ih =>
    unfold writeSectors
    split
    case isTrue h => simp [h]
    case isFalse => rw [ih, drop_drop, length_cons, Nat.mul_succ, Nat.add_comm]

/-- What `lateran_write_file` has done since `d₀`: it has made the chain `l` of free clusters. -/
structure Grown (g : Layout) (d₀ d : Disk) (first : Nat) (l : List Nat) : Prop where
  fresh : ∀ c ∈ l, 2 ≤ c ∧ c < g.clusterEnd ∧ fatNext g d₀ c = 0
  linked : (first = 0 ∧ l = []) ∨ (l ≠ [] ∧ Linked (fatNext g d) EndOfChain first l)
  table : ∀ c < g.fatEntries, c ∉ l → fatNext g d c = fatNext g d₀ c
  data : ∀ s, g.rootStart ≤ s → (∀ c ∈ l, ¬ InCluster g c s) → d s = d₀ s
  mirrored : Mirrored g d₀ → Mirrored g d

theorem grown_refl (d : Disk) : Grown g d d 0 [] :=
  ⟨by simp, .inl ⟨rfl, rfl⟩, fun _ _ _ => rfl, fun _ _ _ => rfl, id⟩

variable {d₀ : Disk} {first : Nat} {l : List Nat}

theorem clusterEnd_le : g.clusterEnd ≤ g.totalClusters + 2 := Nat.min_le_left _ _

theorem chain_singleton (h2 : 2 ≤ c) (hlt : c < g.clusterEnd) (hend : EndOfChain (fat c)) :
    Chain g fat c [c] := by
  refine .inr ⟨⟨rfl, not_end_of_lt hlt, hend⟩, fun x hx => ?_⟩
  rw [mem_singleton.mp hx]
  exact ⟨h2, lt_of_lt_of_le hlt clusterEnd_le⟩

theorem Grown.chain (h : Grown g d₀ d first l) : Chain g (fatNext g d) first l := by
  rcases h.linked with h' | ⟨-, h'⟩
  · exact .inl h'
  · exact .inr ⟨h', fun c hc => ⟨(h.fresh c hc).1, lt_of_lt_of_le (h.fresh c hc).2.1 clusterEnd_le⟩⟩

/-- The clusters in a chain are not free. -/
theorem fat_ne_zero_of_mem {p : Nat} (h : Linked fat EndOfChain p l) (hmem : ∀ c ∈ l, 2 ≤ c) :
    ∀ c ∈ l, fat c ≠ 0 := by
  intro c hc
  obtain ⟨pre, post, rfl⟩ := append_of_mem hc
  obtain ⟨-, -, hrest⟩ := h.suffix
  cases post with
  | nil =>
    have : 0xFFF8 ≤ fat c := hrest
    omega
  | cons y post =>
    have h1 := hrest.1
    have h2 := hmem y (by simp)
    omega

theorem Grown.not_mem_of_free (h : Grown g d₀ d first l) (hfree : fatNext g d c = 0) : c ∉ l := by
  intro hc
  rcases h.linked with ⟨-, rfl⟩ | ⟨-, hlink⟩
  · cases hc
  · exact fat_ne_zero_of_mem hlink (fun c hc => (h.fresh c hc).1) c hc hfree

include hcover in
theorem Allocated.isEnd (h : Allocated g d d' c) : EndOfChain (fatNext g d' c) := by
  rw [h.edit.fat_eq c (lt_fatEntries hcover h.lt), update_self]
  unfold EndOfChain
  omega

include hcover in
/-- The first cluster. -/
theorem Grown.start (h : Grown g d₀ d 0 []) (halloc : Allocated g d d' c) :
    Grown g d₀ d' c [c] where
  fresh x hx := by
    rw [mem_singleton.mp hx]
    refine ⟨halloc.two_le, halloc.lt, ?_⟩
    rw [← h.table c (lt_fatEntries hcover halloc.lt) (by simp)]
    exact halloc.free
  linked := .inr ⟨by simp, rfl, not_end_of_lt halloc.lt, halloc.isEnd hcover⟩
  table x hx hnot := by
    rw [halloc.edit.fat_eq x hx, update_of_ne (by simpa using hnot), h.table x hx (by simp)]
  data s hs hout := by
    rw [halloc.edit.data s hs fun c' h => by rw [h]; exact hout c (by simp), h.data s hs (by simp)]
  mirrored hm := halloc.edit.mirrored (h.mirrored hm)

include hcover in
/-- One more cluster, linked behind the last one. -/
theorem Grown.next {pre : List Nat} {prev : Nat} (h : Grown g d₀ d first (pre ++ [prev]))
    (halloc : Allocated g d d' c) :
    Grown g d₀ (fatSet g d' prev c) first (pre ++ [prev] ++ [c]) := by
  have hnot := h.not_mem_of_free halloc.free
  have hclt := lt_fatEntries hcover halloc.lt
  obtain ⟨-, hpend, -⟩ := h.fresh prev (by simp)
  have hplt := lt_fatEntries hcover hpend
  have hend := not_end_of_lt halloc.lt
  have hset := edit_fatSet d' hplt (by unfold EndOfChain at hend; omega : c < 2 ^ 16)
  have hpc : prev ≠ c := fun heq => hnot (by simp [heq])
  have hlink : Linked (fatNext g d) EndOfChain first (pre ++ [prev]) := by
    rcases h.linked with ⟨-, h'⟩ | ⟨-, h'⟩
    · simp at h'
    · exact h'
  have hfat : ∀ x < g.fatEntries, x ≠ prev → x ≠ c → fatNext g (fatSet g d' prev c) x =
    fatNext g d x :=
    fun x hx h1 h2 => by
      rw [hset.fat_eq x hx, update_of_ne h1, halloc.edit.fat_eq x hx, update_of_ne h2]
  refine ⟨fun x hx => ?_, .inr ⟨by simp, ?_⟩, fun x hx hx' => ?_, fun s hs hout => ?_, fun hm => ?_⟩
  · rcases mem_append.mp hx with hx | hx
    · exact h.fresh x hx
    · rw [mem_singleton.mp hx]
      exact ⟨halloc.two_le, halloc.lt, by rw [← h.table c hclt hnot]; exact halloc.free⟩
  · refine hlink.snoc (fun y hy => ?_) ?_ ?_ ?_
    · refine hfat y (lt_fatEntries hcover (h.fresh y (by simp [hy])).2.1) ?_ fun heq => hnot
        (by simp [← heq, hy])
      have hnd := hlink.nodup
      rw [nodup_append] at hnd
      exact hnd.2.2 y hy prev (by simp)
    · rw [hset.fat_eq prev hplt, update_self]
    · exact hend
    · rw [hset.fat_eq c hclt, update_of_ne hpc.symm]
      exact halloc.isEnd hcover
  · simp only [mem_append, mem_singleton, not_or] at hx'
    rw [hfat x hx hx'.1.2 hx'.2, h.table x hx (by simp [hx'])]
  · rw [hset.data s hs fun c' h => h.elim, halloc.edit.data s hs fun c' h => by
      rw [h]; exact hout c (by simp), h.data s hs fun c' hc' => hout c' (mem_append_left _ hc')]
  · exact hset.mirrored (halloc.edit.mirrored (h.mirrored hm))

include hcover in
/-- The data of the last cluster is written. -/
theorem Grown.fill (h : Grown g d₀ d first l) (hc : c ∈ l)
    (hedit : Edit g d d' (fatNext g d) (· = c)) : Grown g d₀ d' first l where
  fresh := h.fresh
  linked := h.linked.imp_right fun ⟨hne, hlink⟩ => ⟨hne, hlink.congr fun x hx =>
    hedit.fat_eq x (lt_fatEntries hcover (h.fresh x hx).2.1)⟩
  table x hx hnot := by rw [hedit.fat_eq x hx, h.table x hx hnot]
  data s hs hout := by
    rw [hedit.data s hs fun c' h' => by rw [h']; exact hout c hc, h.data s hs hout]
  mirrored hm := hedit.mirrored (h.mirrored hm)

include hcover in
/-- When the disk is full, the clusters are given back, and the table is as it was. -/
theorem Grown.rollback (h : Grown g d₀ d first l) :
    Edit g d₀ (if first ≠ 0 then freeChain g d first else d) (fatNext g d₀)
      (fun c => 2 ≤ c ∧ c < g.clusterEnd ∧ fatNext g d₀ c = 0) := by
  have hfree : Edit g d (if first ≠ 0 then freeChain g d first else d)
      (fun c => if c ∈ l then 0 else fatNext g d c) (fun _ => False) := by
    split
    · exact edit_freeChain hcover h.chain
    case isFalse hzero =>
      obtain rfl := (not_not.mp hzero ▸ h.chain).eq_nil
      exact (edit_refl d _).mono (by simp) fun _ h => h
  refine ⟨fun c hc => ?_, fun s hs hout => ?_, fun hm => hfree.mirrored (h.mirrored hm)⟩
  · rw [hfree.fat_eq c hc]
    split
    case isTrue hmem => exact (h.fresh c hmem).2.2.symm
    case isFalse hnot => exact h.table c hc hnot
  · rw [hfree.data s hs fun _ h => h.elim, h.data s hs fun c hc => hout c (h.fresh c hc)]

/-! ## Room -/

/-- The number of free clusters. -/
def freeClusters (g : Layout) (d : Disk) : Nat :=
  (range g.clusterEnd).countP fun c => 2 ≤ c ∧ fatNext g d c = 0

/-- The number of clusters a file of `n` bytes takes. -/
def clustersFor (g : Layout) (n : Nat) : Nat :=
  (n + kSector * g.sectorsPerCluster - 1) / (kSector * g.sectorsPerCluster)

theorem countP_lt_of_flip {l : List Nat} {P Q : Nat → Bool} (c : Nat)
    (hP : P c = true) (heq : ∀ x ∈ l, x ≠ c → Q x = P x) (hc : c ∈ l) (hl : l.Nodup) :
    l.countP P ≤ l.countP Q + 1 := by
  have hsame : (l.erase c).countP Q = (l.erase c).countP P := countP_congr fun x hx => by
    rw [heq x (mem_of_mem_erase hx) fun h => hl.not_mem_erase (h ▸ hx)]
  rw [(perm_cons_erase hc).countP_eq P, (perm_cons_erase hc).countP_eq Q, countP_cons_of_pos hP,
    countP_cons, hsame]
  omega

include hcover in
/-- Taking a cluster leaves all the others. -/
theorem Allocated.freeClusters_le (h : Allocated g d d' c) :
    freeClusters g d ≤ freeClusters g d' + 1 := by
  refine countP_lt_of_flip c ?_ (fun x hx hne => ?_) (mem_range.mpr h.lt) nodup_range
  · simp [h.two_le, h.free]
  · rw [h.edit.fat_eq x (lt_fatEntries hcover (mem_range.mp hx)), update_of_ne hne]

theorem freeClusters_congr (h : ∀ c < g.clusterEnd, fatNext g d c = 0 → fatNext g d' c = 0) :
    freeClusters g d ≤ freeClusters g d' := by
  refine countP_mono_left fun c hc => ?_
  simp only [decide_eq_true_eq]
  exact fun ⟨h2, hfree⟩ => ⟨h2, h c (mem_range.mp hc) hfree⟩

theorem freeClusters_eq_zero (h : ∀ c, 2 ≤ c → c < g.clusterEnd → fatNext g d c ≠ 0) :
    freeClusters g d = 0 := by
  refine countP_eq_zero.mpr fun c hc => ?_
  simp only [decide_eq_true_eq, not_and]
  exact fun h2 => h c h2 (mem_range.mp hc)

theorem clustersFor_pos {n : Nat} (hn : 0 < n) : 0 < clustersFor g n := by
  have hpos := Nat.mul_pos (by decide : 0 < kSector) g.sectorsPerCluster_pos
  exact Nat.div_pos (by omega) hpos

theorem clustersFor_drop (n : Nat) :
    clustersFor g (n - kSector * g.sectorsPerCluster) ≤ clustersFor g n - 1 := by
  have hpos := Nat.mul_pos (by decide : 0 < kSector) g.sectorsPerCluster_pos
  unfold clustersFor
  generalize kSector * g.sectorsPerCluster = k at *
  by_cases hn : n ≤ k
  · rw [Nat.div_eq_of_lt (by omega)]
    omega
  · have heq : n + k - 1 = (n - k + k - 1) + k := by omega
    rw [heq, Nat.add_div_right _ hpos]
    omega

/-! ## The loop -/

/-- The chain is empty in the beginning and ends with `prev` later. -/
def EndsWith (l : List Nat) (prev : Nat) : Prop := l ≠ [] → ∃ pre, l = pre ++ [prev]

include hcover in
/-- A round that finds a free cluster. -/
theorem writeChain_round {prev : Nat} {data : List UInt8} (h : Grown g d₀ d first l)
    (hprev : EndsWith l prev) (hdata : data ≠ [])
    (halloc : Allocated g d (allocCluster g d).2 (allocCluster g d).1) (fuel : Nat) :
    ∃ d' first' c l', writeChain g (fuel + 1) d first prev data =
        writeChain g fuel d' first' c (data.drop (kSector * g.sectorsPerCluster)) ∧
      Grown g d₀ d' first' l' ∧ EndsWith l' c ∧ freeClusters g d ≤ freeClusters g d' + 1 := by
  generalize hr : allocCluster g d = r at halloc
  obtain ⟨c, d₁⟩ := r
  have hc : c ≠ 0 := by
    have := halloc.two_le
    simp only at this
    omega
  have hin : ∀ s ∈ range g.sectorsPerCluster, s < g.sectorsPerCluster := by simp
  have hrest (d : Disk) : (writeSectors g c (range g.sectorsPerCluster) d data).2 =
      data.drop (kSector * g.sectorsPerCluster) := by
    rw [writeSectors_rest, length_range]
  have hcount {d₂ d₃ : Disk} (hset : ∀ x < g.clusterEnd, fatNext g d₁ x = 0 → fatNext g d₂ x = 0)
      (hedit : Edit g d₂ d₃ (fatNext g d₂) (· = c)) : freeClusters g d ≤ freeClusters g d₃ + 1 := by
    refine (halloc.freeClusters_le hcover).trans (Nat.add_le_add_right (freeClusters_congr ?_) 1)
    intro x hx hfree
    rw [hedit.fat_eq x (lt_fatEntries hcover hx)]
    exact hset x hx hfree
  by_cases hl : l = []
  · subst hl
    obtain rfl : first = 0 := h.linked.elim And.left fun h' => absurd rfl h'.1
    have hedit := edit_writeSectors (g := g) c _ hin d₁ data
    refine ⟨_, c, c, [c], ?_, (h.start hcover halloc).fill hcover (by simp) hedit,
      fun _ => ⟨[], rfl⟩, hcount (fun _ _ h => h) hedit⟩
    rw [← hrest d₁]
    simp only [writeChain, hdata, hr, hc, if_false, if_true]
  · have hfirst : first ≠ 0 := fun hzero => hl (hzero ▸ h.chain).eq_nil
    obtain ⟨pre, rfl⟩ := hprev hl
    have hedit := edit_writeSectors (g := g) c _ hin (fatSet g d₁ prev c) data
    refine ⟨_, first, c, pre ++ [prev] ++ [c], ?_,
      (h.next hcover halloc).fill hcover (by simp) hedit, fun _ => ⟨pre ++ [prev], rfl⟩,
      hcount (fun x hx hfree => ?_) hedit⟩
    · rw [← hrest (fatSet g d₁ prev c)]
      simp only [writeChain, hdata, hr, hc, hfirst, if_false]
    · -- `prev` was in use, so it is not the free entry `x`.
      have hxlt := lt_fatEntries hcover hx
      have hplt := lt_fatEntries hcover (h.fresh prev (by simp)).2.1
      have hend := not_end_of_lt halloc.lt
      have hne : x ≠ prev := by
        rintro rfl
        have hnot : x ≠ c := fun heq => h.not_mem_of_free halloc.free (by simp [heq])
        rw [halloc.edit.fat_eq x hxlt, update_of_ne hnot] at hfree
        exact h.not_mem_of_free hfree (by simp)
      rw [(edit_fatSet d₁ hplt (by unfold EndOfChain at hend; omega)).fat_eq x hxlt,
        update_of_ne hne]
      exact hfree

include hcover in
/-- The loop that fills the clusters.  It does not fail if there are as many free clusters as the
data needs. -/
theorem writeChain_spec (fuel : Nat) (d : Disk) (first prev : Nat) (l : List Nat)
    (data : List UInt8) (h : Grown g d₀ d first l) (hprev : EndsWith l prev) :
    (∃ first' l', (writeChain g fuel d first prev data).1 = some first' ∧
        Grown g d₀ (writeChain g fuel d first prev data).2 first' l') ∨
      ((writeChain g fuel d first prev data).1 = none ∧
        freeClusters g d < clustersFor g data.length ∧
        Edit g d₀ (writeChain g fuel d first prev data).2 (fatNext g d₀)
          (fun c => 2 ≤ c ∧ c < g.clusterEnd ∧ fatNext g d₀ c = 0)) := by
  induction fuel generalizing d first prev l data with
  | zero => exact .inl ⟨first, l, rfl, h⟩
  | succ fuel ih =>
    by_cases hdata : data = []
    · simp only [writeChain, hdata, if_true]
      exact .inl ⟨first, l, rfl, h⟩
    · rcases allocCluster_spec (d := d) hcover with ⟨hzero, hsame, hfull⟩ | halloc
      · simp only [writeChain, hdata, hzero, hsame, if_true, if_false]
        rw [freeClusters_eq_zero hfull]
        exact .inr ⟨trivial, clustersFor_pos (length_pos_iff.mpr hdata), h.rollback hcover⟩
      · obtain ⟨d', first', c, l', heq, h', hprev', hcount⟩ :=
          writeChain_round hcover h hprev hdata halloc fuel
        rw [heq]
        refine (ih _ _ _ l' _ h' hprev').imp_right fun ⟨hnone, hneed, hedit⟩ => ⟨hnone, ?_, hedit⟩
        have hdrop := clustersFor_drop (g := g) data.length
        rw [length_drop] at hneed
        omega

end Fat16
end Lateran
end IndexOS
