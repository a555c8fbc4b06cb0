import IndexOS.Lateran.FatVolume

/-!
# Directories of a consistent volume

`dir_find` and `dir_free_slot` go through the sectors of a directory by their numbers.  For a
directory of a consistent volume the numbers run through the root directory or the chain of the
directory (`dirNthSector_eq`), and the bound of the two loops is never reached (`sectorAt_bound`).

* `dirFind_spec` — what is found is in a slot of the directory that is in use;
* `dirFreeSlot_spec` — either there is no slot, and nothing has changed, or there is a free slot
  with only used ones in front of it, in the volume as it was or with one more cluster in the
  directory.
-/

set_option autoImplicit false

namespace IndexOS.Lateran.Fat16

open List Slot
open Function (update_of_ne update_self)
open LittleEndian LinkedList ChainTree Testament

variable {g : Layout} {d d' : Disk} {t : Slot g → Option (Item Nat)} {pending : List Nat}
  {loc : DirLoc} {dir : Option (List Nat)}

/-! ## The sectors of a directory -/

/-- The directory at `loc` is the root directory (`none`) or the one with this chain. -/
def Locates (g : Layout) (d : Disk) (t : Slot g → Option (Item Nat)) (loc : DirLoc) :
    Option (List Nat) → Prop
  | none => loc.isRoot = true
  | some l => loc.isRoot = false ∧ l ≠ [] ∧ ∃ y, Held home t y ⟨true, l⟩ ∧ y.first d = loc.cluster

/-- The `n`-th sector of a directory. -/
def sectorAt (g : Layout) : Option (List Nat) → Nat → Option Nat
  | none, n => if n < g.rootSectors then some (g.rootStart + n) else none
  | some l, n =>
    l[n / g.sectorsPerCluster]?.map fun c => g.clusterFirstSector c + n % g.sectorsPerCluster

variable {sector : Buf} {l : List Nat} {pre : List Nat} {name : CString} {n e : Nat} {s : Slot g}
  {y : Slot g} {c : Nat}

theorem walkChain_eq {p : Nat} (h : Linked (fatNext g d) EndOfChain p l) (hl : l ≠ [])
    (hmem : ∀ c ∈ l, 2 ≤ c) (n : Nat) : walkChain g d n p = l[n]? := by
  induction n generalizing p l with
  | zero =>
    cases l with
    | nil => exact absurd rfl hl
    | cons x l => rw [h.1]; rfl
  | succ n ih =>
    cases l with
    | nil => exact absurd rfl hl
    | cons x l =>
      obtain ⟨rfl, -, hrest⟩ := h
      simp only [walkChain]
      cases l with
      | nil =>
        have hend : 0xFFF8 ≤ fatNext g d p := hrest
        rw [if_pos (by omega)]
        rfl
      | cons y l =>
        have hy := not_stop_of_mem hrest y mem_cons_self
        have hy2 := hmem y (by simp)
        have heq := hrest.1
        rw [if_neg (by omega)]
        exact ih hrest (by simp) fun c hc => hmem c (mem_cons_of_mem _ hc)

theorem walkChain_range (hc : 2 ≤ c ∧ c < 0xFFF8) {n c' : Nat} (h : walkChain g d n c = some c') :
    2 ≤ c' ∧ c' < 0xFFF8 := by
  induction n generalizing c with
  | zero => exact Option.some.inj h ▸ hc
  | succ n ih =>
    simp only [walkChain] at h
    split at h
    · cases h
    · exact ih (by omega) h

theorem dirNthSector_walk (hc : 2 ≤ c ∧ c < 0xFFF8) (n : Nat) : dirNthSector g d ⟨false, c⟩ n =
    (walkChain g d (n / g.sectorsPerCluster) c).map
    (g.clusterFirstSector · + n % g.sectorsPerCluster) := by
  rw [dirNthSector, if_neg (by simp)]
  cases hwalk : walkChain g d (n / g.sectorsPerCluster) c with
  | none => rfl
  | some c' =>
    have hrange := walkChain_range hc hwalk
    exact if_neg (by omega)

/-- The chain of a directory that has clusters. -/
theorem Tree.dir_linked (htree : Tree g d t pending) (hy : Held home t y ⟨true, l⟩) (hl : l ≠ []) :
    Linked (fatNext g d) EndOfChain (y.first d) l ∧ ∀ c ∈ l, 2 ≤ c ∧ c < g.clusterEnd := by
  have hdesc := htree.items y hy.1
  rw [hy.2] at hdesc
  refine ⟨?_, fun c hc => hdesc.2.2.mem_range hc⟩
  rcases hdesc.2.2 with ⟨-, hnil⟩ | ⟨hlink, -⟩
  · exact absurd hnil hl
  · exact hlink

theorem dirNthSector_eq (htree : Tree g d t pending) (hloc : Locates g d t loc dir) (n : Nat) :
    dirNthSector g d loc n = sectorAt g dir n := by
  cases dir with
  | none =>
    have hroot : loc.isRoot = true := hloc
    simp only [dirNthSector, hroot, if_true, sectorAt]
    by_cases hn : n < g.rootSectors
    · rw [if_neg (by omega), if_pos hn]
    · rw [if_pos (by omega), if_neg hn]
  | some l =>
    obtain ⟨hroot, hl, y, hy, hfirst⟩ := hloc
    obtain ⟨hlink, hmem⟩ := htree.dir_linked hy hl
    rw [hfirst] at hlink
    obtain ⟨isRoot, cluster⟩ := loc
    obtain rfl : isRoot = false := hroot
    have hc : cluster ∈ l := by
      cases l with
      | nil => exact absurd rfl hl
      | cons c l => exact hlink.1 ▸ mem_cons_self
    rw [dirNthSector_walk ⟨(hmem _ hc).1, not_stop_of_mem hlink _ hc⟩,
      walkChain_eq hlink hl fun c hc => (hmem c hc).1]
    rfl

theorem sectorAt_mono {n n' : Nat} (h : sectorAt g dir n = none) (hle : n ≤ n') :
    sectorAt g dir n' = none := by
  cases dir with
  | none =>
    simp only [sectorAt] at h ⊢
    split at h
    · cases h
    · rw [if_neg (by omega)]
  | some l =>
    simp only [sectorAt, Option.map_eq_none_iff, getElem?_eq_none_iff] at h ⊢
    exact h.trans (Nat.div_le_div_right hle)

/-- The bound of the loops is behind the end of every directory. -/
theorem sectorAt_bound (htree : Tree g d t pending) (hloc : Locates g d t loc dir) :
    sectorAt g dir (scanBound g) = none := by
  cases dir with
  | none => exact if_neg (by unfold scanBound; omega)
  | some l =>
    obtain ⟨-, hl, y, hy, -⟩ := hloc
    obtain ⟨hlink, -⟩ := htree.dir_linked hy hl
    have hlen := length_le_of_nodup hlink.nodup (not_stop_of_mem hlink)
    simp only [sectorAt, scanBound, Option.map_eq_none_iff, getElem?_eq_none_iff]
    rw [Nat.le_div_iff_mul_le g.sectorsPerCluster_pos]
    have := Nat.mul_le_mul_right g.sectorsPerCluster (hlen.trans (by decide : 0xFFF8 ≤ 0x10000))
    omega

/-! ## The slots of a directory -/

/-- The slot is number `e` in the `n`-th sector of the directory. -/
def At (g : Layout) : Option (List Nat) → Nat → Nat → Slot g → Prop
  | none, n, e, s => s.home = none ∧ n = s.index / 16 ∧ e = s.index % 16
  | some l, n, e, s => ∃ i c, l[i]? = some c ∧ s.home = some c ∧
      n = i * g.sectorsPerCluster + s.index / 16 ∧ e = s.index % 16

theorem At.place (h : At g dir n e s) :
    sectorAt g dir n = some s.sector ∧ s.off = e * 32 ∧ e < 16 := by
  have hv := s.valid
  cases dir with
  | none =>
    obtain ⟨hhome, rfl, rfl⟩ := h
    rw [hhome] at hv
    refine ⟨?_, rfl, by omega⟩
    simp only [sectorAt, sector, base, hhome]
    rw [if_pos (by omega)]
  | some l =>
    obtain ⟨i, c, hi, hhome, rfl, rfl⟩ := h
    rw [hhome] at hv
    have hlt : s.index / 16 < g.sectorsPerCluster := by omega
    refine ⟨?_, rfl, by omega⟩
    simp only [sectorAt, sector, base, hhome]
    rw [Nat.mul_comm i, Nat.mul_add_div g.sectorsPerCluster_pos, Nat.div_eq_of_lt hlt, Nat.add_zero,
      hi, Nat.mul_add_mod, Nat.mod_eq_of_lt hlt]
    rfl

/-- Each place of a directory is a slot. -/
theorem exists_at (hdir : ∀ l, dir = some l → ∀ c ∈ l, 2 ≤ c) {n e sec : Nat}
    (hsec : sectorAt g dir n = some sec) (he : e < 16) :
    ∃ s : Slot g, At g dir n e s ∧ s.sector = sec ∧ s.off = e * 32 := by
  suffices h : ∃ s : Slot g, At g dir n e s by
    obtain ⟨s, hs⟩ := h
    have := hs.place
    rw [hsec] at this
    exact ⟨s, hs, (Option.some.inj this.1).symm, this.2.1⟩
  cases dir with
  | none =>
    simp only [sectorAt] at hsec
    split at hsec
    case isTrue hn => exact ⟨⟨none, n * 16 + e, by omega⟩, rfl, by simp only; omega, by
      simp only; omega⟩
    case isFalse => cases hsec
  | some l =>
    simp only [sectorAt, Option.map_eq_some_iff] at hsec
    obtain ⟨c, hc, -⟩ := hsec
    have hlt := Nat.mod_lt n g.sectorsPerCluster_pos
    refine ⟨⟨some c, n % g.sectorsPerCluster * 16 + e,
      hdir l rfl c (mem_of_getElem? hc), by omega⟩, n / g.sectorsPerCluster, c, hc, rfl, ?_, ?_⟩
    · have hdiv := Nat.div_add_mod n g.sectorsPerCluster
      rw [Nat.mul_comm] at hdiv
      simp only
      omega
    · simp only
      omega

theorem At.reach (hloc : Locates g d t loc dir) (h : At g dir n e s) : Reach home t s := by
  cases dir with
  | none => exact .root h.1
  | some l =>
    obtain ⟨i, c, hi, hhome, -⟩ := h
    obtain ⟨-, -, y, hy, -⟩ := hloc
    exact .sub hy.1 hy.2 (mem_of_getElem? hi) hhome

/-- What comes before a slot in its directory has a smaller number. -/
theorem At.precedes (htree : Tree g d t pending) (hloc : Locates g d t loc dir) {s x : Slot g}
    (h : At g dir n e x) (hprec : Precedes t s x) :
    ∃ m f, At g dir m f s ∧ (m < n ∨ (m = n ∧ f < e)) := by
  cases dir with
  | none =>
    obtain ⟨hhome, rfl, rfl⟩ := h
    rcases hprec with ⟨heq, hlt⟩ | ⟨_, _, _, _, _, c', _, _, _, _, _, hc'⟩
    · exact ⟨_, _, ⟨heq.trans hhome, rfl, rfl⟩, by omega⟩
    · rw [hhome] at hc'
      cases hc'
  | some l =>
    obtain ⟨j, c, hj, hhome, rfl, rfl⟩ := h
    rcases hprec with ⟨heq, hlt⟩ | ⟨y', l', i', j', a, b, hy', hij, hi', hj', ha, hb⟩
    · exact ⟨_, _, ⟨j, c, hj, heq.trans hhome, rfl, rfl⟩, by omega⟩
    · -- The chain that orders the two is the chain of this directory.
      rw [hhome] at hb
      obtain rfl := Option.some.inj hb
      obtain ⟨-, hl, y, hy, -⟩ := hloc
      have heq := htree.sound.owner _ _ _ _ c hy' hy (mem_of_getElem? hj')
        (mem_of_getElem? hj)
      subst heq
      have hll : l' = l := congrArg Item.chain (Option.some.inj (hy'.2.symm.trans hy.2))
      subst hll
      have hnodup : l'.Nodup := htree.sound.nodup _ _ hy
      have hjj : j' = j := by
        obtain ⟨h1, h1'⟩ := List.getElem?_eq_some_iff.mp hj'
        obtain ⟨h2, h2'⟩ := List.getElem?_eq_some_iff.mp hj
        exact hnodup.getElem_inj_iff.mp (h1'.trans h2'.symm)
      subst hjj
      have hv := s.valid
      rw [ha] at hv
      have hmul : (i' + 1) * g.sectorsPerCluster ≤ j' * g.sectorsPerCluster :=
        Nat.mul_le_mul_right _ hij
      rw [Nat.succ_mul] at hmul
      exact ⟨_, _, ⟨i', a, hi', ha, rfl, rfl⟩, .inl (by omega)⟩

/-! ## Looking for an entry -/

theorem mem_slotIndices {e : Nat} : e ∈ slotIndices ↔ e < 16 := mem_range

/-- What `dir_find` stops at. -/
structure Hit (sector : Buf) (off : Nat) : Prop where
  used : sector off ≠ 0x00
  kept : sector off ≠ 0xE5
  plain : ¬ (sector (off + 11) = 0x0F ∨ sector (off + 11) &&& 0x08 ≠ 0)

variable {off : Nat}

theorem scanSector_hit {es : List Nat} (h : scanSector sector name es = .hit off) :
    ∃ e ∈ es, off = e * 32 ∧ Hit sector off := by
  induction es with
  | nil => cases h
  | cons e es ih =>
    have hrest (h : scanSector sector name es = .hit off) :
        ∃ e' ∈ e :: es, off = e' * 32 ∧ Hit sector off := by
      obtain ⟨e', he', hoff⟩ := ih h
      exact ⟨e', mem_cons_of_mem _ he', hoff⟩
    simp only [scanSector] at h
    split at h
    · cases h
    case isFalse hused =>
      split at h
      · exact hrest h
      case isFalse hkept =>
        split at h
        · exact hrest h
        case isFalse hplain =>
          split at h
          · cases h
            exact ⟨e, mem_cons_self, rfl, hused, hkept, hplain⟩
          · exact hrest h

theorem dirFindFrom_some {fuel n sec : Nat}
    (h : dirFindFrom g d loc name fuel n = some (sec, off)) :
    ∃ n' e, dirNthSector g d loc n' = some sec ∧ e < 16 ∧ off = e * 32 ∧ Hit (d sec) off := by
  induction fuel generalizing n with
  | zero => cases h
  | succ fuel ih =>
    unfold dirFindFrom at h
    split at h
    · cases h
    case h_2 sec' hsec =>
      split at h
      case h_1 off' hscan =>
        cases h
        obtain ⟨e, he, rfl, hhit⟩ := scanSector_hit hscan
        exact ⟨n, e, hsec, mem_slotIndices.mp he, rfl, hhit⟩
      · cases h
      · exact ih h

theorem Locates.two_le (htree : Tree g d t pending) (hloc : Locates g d t loc dir) :
    ∀ l, dir = some l → ∀ c ∈ l, 2 ≤ c := by
  rintro l rfl c hc
  obtain ⟨-, hl, y, hy, -⟩ := hloc
  exact ((htree.dir_linked hy hl).2 c hc).1

/-- `dir_find` -/
theorem dirFind_spec (htree : Tree g d t pending) (hloc : Locates g d t loc dir) {sec : Nat}
    (h : dirFind g d loc name = some (sec, off)) :
    ∃ x : Slot g, Reach home t x ∧ x.sector = sec ∧ x.off = off ∧ Hit (d sec) off := by
  obtain ⟨n, e, hsec, he, rfl, hhit⟩ := dirFindFrom_some h
  rw [dirNthSector_eq htree hloc] at hsec
  obtain ⟨x, hx, hxsec, hxoff⟩ := exists_at (hloc.two_le htree) hsec he
  exact ⟨x, hx.reach hloc, hxsec, hxoff, hhit⟩

/-! ## Looking for a free slot -/

/-- A slot that begins with this byte is free. -/
def IsFree (b : UInt8) : Prop := b = 0x00 ∨ b = 0xE5

theorem freeIn_some (h : freeIn sector = some off) :
    ∃ e < 16, off = e * 32 ∧ IsFree (sector off) ∧ ∀ f < e, ¬ IsFree (sector (f * 32)) := by
  obtain ⟨e, he, rfl⟩ := Option.map_eq_some_iff.mp h
  obtain ⟨hfree, hmem, hbefore⟩ := find?_range_eq_some.mp he
  refine ⟨e, mem_range.mp hmem, rfl, by simpa [IsFree] using hfree, fun f hf => ?_⟩
  simpa [IsFree] using hbefore f hf

theorem freeIn_none (h : freeIn sector = none) : ∀ f < 16, ¬ IsFree (sector (f * 32)) := by
  intro f hf
  have := find?_eq_none.mp (Option.map_eq_none_iff.mp h) f (mem_slotIndices.mpr hf)
  simpa [IsFree] using this

theorem dirFreeFrom_some {fuel n sec : Nat} (h : dirFreeFrom g d loc fuel n = some (sec, off)) :
    ∃ n' e, dirNthSector g d loc n' = some sec ∧ e < 16 ∧ off = e * 32 ∧
      IsFree (d sec off) ∧ ∀ m f sec', n ≤ m → (m < n' ∨ (m = n' ∧ f < e)) → f < 16 →
        dirNthSector g d loc m = some sec' → ¬ IsFree (d sec' (f * 32)) := by
  induction fuel generalizing n with
  | zero => cases h
  | succ fuel ih =>
    unfold dirFreeFrom at h
    split at h
    · cases h
    case h_2 sec₀ hsec =>
      split at h
      case h_1 off' hfree =>
        cases h
        obtain ⟨e, he, hoff, hbyte, hbefore⟩ := freeIn_some hfree
        refine ⟨n, e, hsec, he, hoff, hbyte, fun m f sec' hle hlt hf hm => ?_⟩
        obtain ⟨rfl, hfe⟩ : m = n ∧ f < e := by omega
        rw [hsec] at hm
        cases hm
        exact hbefore f hfe
      case h_2 hnone =>
        obtain ⟨n', e, hn', he, hoff, hbyte, hbefore⟩ := ih h
        refine ⟨n', e, hn', he, hoff, hbyte, fun m f sec' hm hlt hf hsec' => ?_⟩
        rcases Nat.eq_or_lt_of_le hm with rfl | hgt
        · rw [hsec] at hsec'
          cases hsec'
          exact freeIn_none hnone f hf
        · exact hbefore m f sec' hgt hlt hf hsec'

theorem dirFreeFrom_none {fuel n : Nat} (h : dirFreeFrom g d loc fuel n = none)
    (hmono : ∀ m m', dirNthSector g d loc m = none → m ≤ m' → dirNthSector g d loc m' = none) :
    ∀ m f sec, n ≤ m → m < n + fuel → f < 16 → dirNthSector g d loc m = some sec →
      ¬ IsFree (d sec (f * 32)) := by
  induction fuel generalizing n with
  | zero => omega
  | succ fuel ih =>
    intro m f sec hle hlt hf hm
    unfold dirFreeFrom at h
    split at h
    case h_1 hend =>
      rw [hmono n m hend hle] at hm
      cases hm
    case h_2 sec₀ hsec =>
      split at h
      · cases h
      case h_2 hnone =>
        rcases Nat.eq_or_lt_of_le hle with rfl | hgt
        · rw [hsec] at hm
          cases hm
          exact freeIn_none hnone f hf
        · exact ih h m f sec hgt (by omega) hf hm

/-- A slot that is found has only used ones in front of it. -/
theorem dirFreeFrom_slot (htree : Tree g d t pending) (hloc : Locates g d t loc dir)
    {fuel sec : Nat} (h : dirFreeFrom g d loc fuel 0 = some (sec, off)) :
    ∃ x : Slot g, Reach home t x ∧ x.sector = sec ∧ x.off = off ∧ IsFree (x.byte d 0) ∧
      ∀ s, Precedes t s x → s.byte d 0 ≠ 0 := by
  obtain ⟨n, e, hsec, he, rfl, hbyte, hbefore⟩ := dirFreeFrom_some h
  rw [dirNthSector_eq htree hloc] at hsec
  obtain ⟨x, hx, hxsec, hxoff⟩ := exists_at (hloc.two_le htree) hsec he
  refine ⟨x, hx.reach hloc, hxsec, hxoff, ?_, fun s hs hzero => ?_⟩
  · unfold byte
    rw [hxsec, hxoff]
    exact hbyte
  · obtain ⟨m, f, hat, hlt⟩ := hx.precedes htree hloc hs
    obtain ⟨hmsec, hmoff, hf⟩ := hat.place
    refine hbefore m f s.sector (Nat.zero_le m) hlt hf (by rw [dirNthSector_eq htree hloc, hmsec])
      ?_
    rw [← hmoff]
    exact .inl hzero

/-- When none is found, every slot of the directory is used. -/
theorem dirFreeFrom_full (htree : Tree g d t pending) (hloc : Locates g d t loc dir)
    (h : dirFreeFrom g d loc (scanBound g + 1) 0 = none) (hat : At g dir n e s) :
    s.byte d 0 ≠ 0 := by
  obtain ⟨hsec, hoff, he⟩ := hat.place
  have hlt : n < scanBound g := by
    by_contra hge
    rw [sectorAt_mono (sectorAt_bound htree hloc) (not_lt.mp hge)] at hsec
    cases hsec
  have hmono : ∀ m m', dirNthSector g d loc m = none → m ≤ m' → dirNthSector g d loc m' = none := by
    intro m m' hm hle
    rw [dirNthSector_eq htree hloc] at hm ⊢
    exact sectorAt_mono hm hle
  have hused := dirFreeFrom_none h hmono n e s.sector (Nat.zero_le n) (by omega) he
    (by rw [dirNthSector_eq htree hloc, hsec])
  intro hzero
  rw [← hoff] at hused
  exact hused (.inl hzero)

/-! ## Growing a directory -/

theorem tailLoop_eq {p c : Nat} (h : Linked (fatNext g d) EndOfChain p (pre ++ [c]))
    (hmem : ∀ x ∈ pre ++ [c], 2 ≤ x) (n : Nat) (hn : pre.length < n) : tailLoop g d n p = c := by
  induction pre generalizing p n with
  | nil =>
    obtain ⟨n, rfl⟩ : ∃ m, n = m + 1 := ⟨n - 1, by omega⟩
    obtain ⟨rfl, -, hend⟩ := h
    have hend' : 0xFFF8 ≤ fatNext g d p := hend
    unfold tailLoop
    rw [if_neg (by omega)]
  | cons x pre ih =>
    obtain ⟨n, rfl⟩ : ∃ m, n = m + 1 := ⟨n - 1, by omega⟩
    obtain ⟨rfl, -, hrest⟩ := h
    have hnext : ∃ y ∈ pre ++ [c], fatNext g d p = y := by
      cases pre with
      | nil => exact ⟨c, by simp, hrest.1⟩
      | cons y pre => exact ⟨y, by simp, hrest.1⟩
    obtain ⟨y, hy, heq⟩ := hnext
    have h2 := hmem y (mem_cons_of_mem _ hy)
    have hend := not_stop_of_mem hrest y hy
    unfold tailLoop
    rw [if_pos (by omega)]
    exact ih hrest (fun z hz => hmem z (mem_cons_of_mem _ hz)) n (by simpa using hn)

/-- A free cluster is not in the tree. -/
theorem Tree.not_owned_of_free (htree : Tree g d t pending) (h : fatNext g d c = 0) :
    ¬ Owned home t c := fun hc => htree.owned_ne_zero hc h

/-- A cluster is taken. -/
theorem Tree.allocate (htree : Tree g d t pending) (h : Allocated g d d' c) :
    Tree g d' t (c :: pending) := by
  have hfree := htree.not_owned_of_free h.free
  have hlt := lt_fatEntries htree.covers h.lt
  have hother : ∀ x < g.clusterEnd, x ≠ c → fatNext g d' x = fatNext g d x := fun x hx hne => by
    rw [h.edit.fat_eq x (lt_fatEntries htree.covers hx), update_of_ne hne]
  refine htree.same (fun s hs => sameSlot_of_edit h.edit ?_ hs) (fun x hx => ?_)
    (fun x h2 hx hnot hmem => ?_) (fun x hx => ?_) (h.edit.mirrored htree.mirrored)
  · rintro x rfl
    exact ⟨h.two_le, hfree⟩
  · refine hother x (htree.owned_lt hx) ?_
    rintro rfl
    exact hfree hx
  · rw [mem_cons, not_or] at hmem
    rw [hother x hx hmem.1]
    exact htree.free x h2 hx hnot hmem.2
  · rcases mem_cons.mp hx with rfl | hx
    · refine ⟨h.two_le, h.lt, ?_, hfree⟩
      rw [h.edit.fat_eq x hlt, update_self]
      decide
    · obtain ⟨h2, hxlt, hne, hnot⟩ := htree.unlinked x hx
      refine ⟨h2, hxlt, ?_, hnot⟩
      rw [hother x hxlt fun heq => hne (heq ▸ h.free)]
      exact hne

/-- The first slot of a cluster. -/
def firstSlot (g : Layout) (c : Nat) (hc : 2 ≤ c) : Slot g where
  home := some c
  index := 0
  valid := ⟨hc, Nat.mul_pos (by decide) g.sectorsPerCluster_pos⟩

theorem firstSlot_place (hc : 2 ≤ c) :
    (firstSlot g c hc).sector = g.clusterFirstSector c ∧ (firstSlot g c hc).off = 0 := by
  simp [firstSlot, sector, base, off]

theorem byte_eq_zero (hhome : s.home = some c)
    (hzeros : ∀ sec, InCluster g c sec → d sec = fun _ => 0) (i : Nat) : s.byte d i = 0 := by
  unfold byte
  rw [hzeros _ (inCluster hhome)]

/-- The directory in the slot `y` grows by the cluster `c`. -/
theorem Tree.rewrites_grow {last c : Nat} (htree : Tree g d t (c :: pending))
    (hy : Held home t y ⟨true, pre ++ [last]⟩) (hend : EndOfChain (fatNext g d c))
    (hzeros : ∀ sec, InCluster g c sec → d sec = fun _ => 0) :
    Rewrites g d (fatSet g d last c) t y (some ⟨true, pre ++ [last] ++ [c]⟩) := by
  obtain ⟨h2, hclt, -, hfree⟩ := htree.unlinked c mem_cons_self
  obtain ⟨hlink, hrange⟩ := htree.dir_linked hy (by simp)
  have hlast := (hrange last (by simp)).2
  have hlastlt := lt_fatEntries htree.covers hlast
  have hcend := not_end_of_lt hclt
  have hedit := edit_fatSet d hlastlt (by unfold EndOfChain at hcend; omega : c < 2 ^ 16)
  have howned : ∀ x ∈ pre ++ [last], Owned home t x := fun x hx => hy.owned hx
  have hlc : c ≠ last := by
    rintro rfl
    exact hfree (howned c (by simp))
  have hsector (s : Slot g) : fatSet g d last c s.sector = d s.sector :=
    hedit.data _ s.rootStart_le fun _ h => h.elim
  have hsame (s : Slot g) : SameSlot d (fatSet g d last c) s := sameSlot_of_sector (hsector s)
  have hzero {s : Slot g} (hhome : s.home = some c) : s.byte (fatSet g d last c) 0 = 0 := by
    rw [hsame s 0 (by omega)]
    exact byte_eq_zero hhome hzeros 0
  have hentry := htree.items y hy.1
  rw [hy.2] at hentry
  have hcells : cells (t y) = pre ++ [last] := by rw [hy.2]; rfl
  have hdirs : dirCells (t y) = pre ++ [last] := by rw [hy.2]; rfl
  have hnew {x : Nat} (hx : x ∈ pre ++ [last] ++ [c]) (hold : x ∉ dirCells (t y)) : x = c := by
    rw [hdirs] at hold
    rcases mem_append.mp hx with hx | hx
    · exact absurd hx hold
    · exact mem_singleton.mp hx
  refine
    { reach := hy.1
      item := ⟨(hsame y).isEntry hentry.1, by rw [(hsame y) 11 (by omega)]; exact hentry.2.1,
        .inr ⟨?_, ?_⟩⟩
      fresh := fun x hx => ?_
      emptied := fun s x item _ hold hnot' => ?_
      table := fun x hx hold _ => ?_
      freed := fun x hold hnot' => ?_
      slots := fun s _ _ _ => hsame s
      mirrored := hedit.mirrored htree.mirrored
      used := (hsame y).isEntry hentry.1 |>.used
      before := fun hzero' => absurd hzero' hentry.1.used
      blank := fun s x hhome hmem hold he => ?_
      order := fun s s' x _ hhome' hmem hold _ _ => ?_
      cross := fun l hl s s' i j a b hij hi hj ha hb hz => ?_ }
  · -- the chain
    rw [(hsame y).first]
    refine hlink.snoc (fun x hx => ?_) ?_ ?_ ?_
    · have hne : x ≠ last := by
        have hnd := hlink.nodup
        rw [nodup_append] at hnd
        exact hnd.2.2 x hx last (by simp)
      rw [hedit.fat_eq x (lt_fatEntries htree.covers (hrange x (by simp [hx])).2),
        update_of_ne hne]
    · rw [hedit.fat_eq last hlastlt, update_self]
    · exact hcend
    · rw [hedit.fat_eq c (lt_fatEntries htree.covers hclt), update_of_ne hlc]
      exact hend
  · intro x hx
    rcases mem_append.mp hx with hx | hx
    · have := hrange x hx
      exact ⟨this.1, lt_of_lt_of_le this.2 clusterEnd_le⟩
    · rw [mem_singleton.mp hx]
      exact ⟨h2, lt_of_lt_of_le hclt clusterEnd_le⟩
  · rw [hcells]
    rcases mem_append.mp hx with hx | hx
    · exact .inl hx
    · rw [mem_singleton.mp hx]
      exact .inr hfree
  · rw [hdirs] at hold
    exact absurd (mem_append_left _ hold) hnot'
  · rw [hcells] at hold
    rw [hedit.fat_eq x hx, update_of_ne]
    rintro rfl
    exact hold (by simp)
  · rw [hcells] at hold
    exact absurd (mem_append_left _ hold) hnot'
  · obtain rfl := hnew hmem hold
    exact he.used (hzero hhome)
  · obtain rfl := hnew hmem hold
    exact hzero hhome'
  · -- the order of the clusters: the new one is behind all others, and it is blank
    obtain rfl : pre ++ [last] ++ [c] = l := congrArg Item.chain (Option.some.inj hl)
    by_cases hjl : j < (pre ++ [last]).length
    · rw [getElem?_append_left hjl] at hj
      rw [getElem?_append_left (by omega)] at hi
      have hr : Reach home t s := .sub hy.1 hy.2 (mem_of_getElem? hi) ha
      have hr' : Reach home t s' := .sub hy.1 hy.2 (mem_of_getElem? hj) hb
      rw [(hsame s') 0 (by omega)]
      refine htree.marked s s' hr hr' (.inr ⟨y, _, i, j, a, b, hy, hij, hi, hj, ha, hb⟩) ?_
      rw [← (hsame s) 0 (by omega)]
      exact hz
    · rw [getElem?_append_right (by omega)] at hj
      rw [mem_singleton.mp (mem_of_getElem? hj)] at hb
      exact hzero hb

/-- A slot of the tree that can be taken. -/
structure Takeable (d : Disk) (t : Slot g → Option (Item Nat)) (x : Slot g) : Prop where
  reach : Reach home t x
  free : IsFree (x.byte d 0)
  before : ∀ s, Precedes t s x → s.byte d 0 ≠ 0

/-- What is written to the clusters that are taken and not in the tree stays. -/
def KeepsPending (g : Layout) (d d' : Disk) (pending : List Nat) : Prop :=
  ∀ c ∈ pending, fatNext g d' c = fatNext g d c ∧ ∀ sec, InCluster g c sec → d' sec = d sec

/-- The directory after it has grown: the first slot of the new cluster can be taken. -/
theorem takeable_grown (hc : 2 ≤ c) (htree : Tree g d' t pending)
    (hy : Held home t y ⟨true, l ++ [c]⟩)
    (hzero : (firstSlot g c hc).byte d' 0 = 0)
    (hfull : ∀ n e s, At g (some l) n e s → s.byte d' 0 ≠ 0) :
    Takeable d' t (firstSlot g c hc) := by
  have hloc : Locates g d' t ⟨false, y.first d'⟩ (some (l ++ [c])) := ⟨rfl, by simp, y, hy, rfl⟩
  have hat : At g (some (l ++ [c])) (l.length * g.sectorsPerCluster) 0 (firstSlot g c hc) :=
    ⟨l.length, c, getElem?_concat_length, rfl, by simp [firstSlot], rfl⟩
  refine ⟨hat.reach hloc, .inl hzero, fun s hs => ?_⟩
  obtain ⟨m, f, ⟨i, a, hi, hhome, hm, hf⟩, hlt⟩ := hat.precedes htree hloc hs
  have hil : i < l.length := by
    by_contra hge
    have := Nat.mul_le_mul_right g.sectorsPerCluster (not_lt.mp hge)
    omega
  rw [getElem?_append_left hil] at hi
  exact hfull m f s ⟨i, a, hi, hhome, hm, hf⟩

/-- A full directory gets one more cluster. -/
theorem Tree.extend (htree : Tree g d t pending) {last c : Nat}
    (hy : Held home t y ⟨true, pre ++ [last]⟩) (halloc : Allocated g d d' c)
    (hfull : ∀ n e s, At g (some (pre ++ [last])) n e s → s.byte d 0 ≠ 0) :
    ∃ t', Tree g (fatSet g d' last c) t' pending ∧
      Takeable (fatSet g d' last c) t' (firstSlot g c halloc.two_le) ∧
      KeepsPending g d (fatSet g d' last c) pending := by
  have hfree := htree.not_owned_of_free halloc.free
  have hnot : c ∉ pending := fun hmem => (htree.unlinked c hmem).2.2.1 halloc.free
  have howned : ∀ x ∈ pre ++ [last], Owned home t x := fun x hx => hy.owned hx
  have hlastlt := lt_fatEntries htree.covers (htree.owned_lt (howned last (by simp)))
  have hcend := not_end_of_lt halloc.lt
  have htaken := htree.allocate halloc
  have hgrow := htaken.rewrites_grow hy (halloc.isEnd htree.covers) halloc.zeros
  have hset := edit_fatSet d' hlastlt (by unfold EndOfChain at hcend; omega : c < 2 ^ 16)
  have hsector (sec : Nat) (hsec : g.rootStart ≤ sec) : fatSet g d' last c sec = d' sec :=
    hset.data _ hsec fun _ h => h.elim
  have htree' : Tree g (fatSet g d' last c) (rewritten t y (some ⟨true, pre ++ [last] ++ [c]⟩))
      pending := by
    refine htaken.rewrite hgrow (fun x hx => ?_) fun x hx => ?_
    · rcases mem_cons.mp hx with rfl | hx
      · exact .inl (by simp [cells])
      · exact .inr hx
    · refine ⟨mem_cons_of_mem _ hx, fun hmem => ?_⟩
      rcases mem_append.mp hmem with hmem | hmem
      · exact (htree.unlinked x hx).2.2.2 (howned x hmem)
      · rw [mem_singleton.mp hmem] at hx
        exact hnot hx
  refine ⟨_, htree', takeable_grown halloc.two_le htree'
    ⟨(hgrow.replaced htaken.sound).reach_self htaken.sound, rewritten_self ..⟩ ?_ ?_, ?_⟩
  · unfold byte
    rw [hsector _ (rootStart_le _)]
    exact byte_eq_zero rfl halloc.zeros 0
  · intro n e s hat
    have hloc : Locates g d t ⟨false, y.first d⟩ (some (pre ++ [last])) :=
      ⟨rfl, by simp, y, hy, rfl⟩
    have hr := hat.reach hloc
    have hsame := sameSlot_of_edit halloc.edit (fun x hx => by
      subst hx
      exact ⟨halloc.two_le, hfree⟩) hr
    have hsame' := sameSlot_of_sector (hsector s.sector s.rootStart_le)
    rw [hsame' 0 (by omega), hsame 0 (by omega)]
    exact hfull n e s hat
  · intro x hx
    obtain ⟨h2, hxlt, -, hxfree⟩ := htree.unlinked x hx
    have hxfat := lt_fatEntries htree.covers hxlt
    have hxc : x ≠ c := fun heq => hnot (heq ▸ hx)
    have hxl : x ≠ last := fun heq => hxfree (heq ▸ howned last (by simp))
    refine ⟨?_, fun sec hsec => ?_⟩
    · rw [hset.fat_eq x hxfat, update_of_ne hxl, halloc.edit.fat_eq x hxfat,
        update_of_ne hxc]
    · have hroot := rootStart_le_of_inCluster hsec
      rw [hsector sec hroot, halloc.edit.data sec hroot]
      rintro y rfl hy'
      exact hxc (inCluster_unique h2 halloc.two_le hsec hy')

/-- `dir_free_slot` -/
theorem dirFreeSlot_spec (htree : Tree g d t pending) (hloc : Locates g d t loc dir) :
    dirFreeSlot g d loc = (none, d) ∨
      ∃ t' x, (dirFreeSlot g d loc).1 = some (Slot.sector x, x.off) ∧
        Tree g (dirFreeSlot g d loc).2 t' pending ∧ Takeable (dirFreeSlot g d loc).2 t' x ∧
        KeepsPending g d (dirFreeSlot g d loc).2 pending := by
  unfold dirFreeSlot
  cases hscan : dirFreeFrom g d loc (scanBound g + 1) 0 with
  | some slot =>
    obtain ⟨x, hr, hsec, hoff, hfree, hbefore⟩ := dirFreeFrom_slot htree hloc hscan
    refine .inr ⟨t, x, ?_, htree, ⟨hr, hfree, hbefore⟩, fun c hc => ⟨rfl, fun _ _ => rfl⟩⟩
    simp only [hsec, hoff]
  | none =>
    have hfull := fun n e s (hat : At g dir n e s) => dirFreeFrom_full htree hloc hscan hat
    cases dir with
    | none =>
      have hroot : loc.isRoot = true := hloc
      simp only [hroot, if_true]
      exact .inl trivial
    | some l =>
      obtain ⟨hroot, hl, y, hy, hfirst⟩ := hloc
      simp only [hroot, Bool.false_eq_true, if_false]
      rcases allocCluster_spec (d := d) htree.covers with ⟨hnone, hsame, -⟩ | halloc
      · simp only [hnone, hsame, if_true]
        exact .inl trivial
      · generalize allocCluster g d = r at halloc
        obtain ⟨c, d₁⟩ := r
        have h2 : 2 ≤ c := halloc.two_le
        obtain ⟨pre, last, rfl⟩ : ∃ pre last, l = pre ++ [last] :=
          ⟨_, _, (dropLast_append_getLast hl).symm⟩
        obtain ⟨hlink, hrange⟩ := htree.dir_linked hy hl
        have hlen := length_le_of_nodup hlink.nodup (not_stop_of_mem hlink)
        have htail : tailLoop g d 100000 loc.cluster = last := by
          rw [hfirst] at hlink
          refine tailLoop_eq hlink (fun x hx => (hrange x hx).1) _ ?_
          rw [length_append] at hlen
          omega
        obtain ⟨t', htree', htake, hkeep⟩ := htree.extend hy halloc hfull
        simp only [show c ≠ 0 by omega, if_false, htail]
        refine .inr ⟨t', firstSlot g c h2, ?_, htree', htake, hkeep⟩
        rw [(firstSlot_place h2).1, (firstSlot_place h2).2]

end IndexOS.Lateran.Fat16
