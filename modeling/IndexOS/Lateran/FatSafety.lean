import IndexOS.Lateran.FatDirs

/-!
# The FAT16 operations and the consistency of the volume

Each of `lateran_write_file`, `lateran_unlink` and `lateran_mkdir` rewrites one slot of the
directory tree, after it may have added a cluster to a directory.  The volume stays consistent if
the call is `Fair`:

* the path leads to a directory that has clusters, or to the root directory — `..` in a directory
  below the root leads to cluster 0, which is none, and then the directory is made to grow there;
* what is overwritten or unlinked is not `.` or `..`, and if it is a directory, there is nothing
  with clusters in it — the code does not look at the attribute;
* there is room for the new contents once the old ones are freed — the code frees them first and
  does not come back to the entry when the disk is full;
* the name does not begin with the byte that marks a deleted entry.

`consistent_run` is the theorem about runs.  `overwrite_full` is a run of a call that is not fair.
-/

set_option autoImplicit false

namespace IndexOS.Lateran.Fat16

open List Slot
open Function (update update_of_ne update_self)
open LittleEndian LinkedList ChainTree Testament

variable {g : Layout} {d d' : Disk} {t : Slot g → Option (Item Nat)} {pending : List Nat}
  {x s : Slot g} {c : Nat} {path : CString} {i : Nat}

/-! ## Writing into a slot -/

/-- The bytes of the slot `x` are written. -/
structure SlotWritten (d d' : Disk) (x : Slot g) : Prop where
  sector : ∀ sec, sec ≠ x.sector → d' sec = d sec
  bytes : ∀ i, i < x.off ∨ x.off + 32 ≤ i → d' x.sector i = d x.sector i
  fat : ∀ c < g.fatEntries, fatNext g d' c = fatNext g d c
  mirrored : Mirrored g d → Mirrored g d'

theorem slotWritten_update (d : Disk) (x : Slot g) (buf : Buf)
    (h : ∀ i, i < x.off ∨ x.off + 32 ≤ i → buf i = d x.sector i) :
    SlotWritten d (update d x.sector buf) x where
  sector sec hne := update_of_ne hne _ _
  bytes i hi := by rw [update_self]; exact h i hi
  fat _ hc := fatNext_update d buf hc x.rootStart_le
  mirrored hm := hm.update buf x.rootStart_le

theorem SlotWritten.sameSlot (h : SlotWritten d d' x) (hne : s ≠ x) : SameSlot d d' s := by
  intro i hi
  unfold byte
  by_cases hsec : s.sector = x.sector
  · rw [hsec]
    refine h.bytes _ ?_
    have hoff : s.off ≠ x.off := fun heq => hne (eq_of_place hsec heq)
    unfold off at *
    omega
  · rw [h.sector _ hsec]

theorem SlotWritten.inCluster (h : SlotWritten d d' x) {c sec : Nat} (hc : 2 ≤ c)
    (hx : x.home ≠ some c) (hsec : InCluster g c sec) : d' sec = d sec := by
  refine h.sector sec ?_
  rintro rfl
  exact not_inCluster hc hx hsec

theorem putEntry_of_disjoint (sector : Buf) (off : Nat) (name : List UInt8) (attr : UInt8)
    (first size : Nat) (hi : i < off ∨ off + 32 ≤ i) :
    putEntry sector off name attr first size i = sector i := by
  simp only [putEntry]
  rw [wr32_of_disjoint (by omega), wr16_of_disjoint (by omega), if_neg (by omega),
    if_neg (by omega),
    if_neg (by omega)]

theorem slotWritten_putEntry (d : Disk) (x : Slot g) (name : List UInt8) (attr : UInt8)
    (first size : Nat) :
    SlotWritten d (update d x.sector (putEntry (d x.sector) x.off name attr first size))
      x :=
  slotWritten_update d x _ fun _ hi => putEntry_of_disjoint _ _ _ _ _ _ hi

section PutEntry

variable (sector : Buf) (off : Nat) (name : List UInt8) (attr : UInt8) (first size : Nat)

theorem putEntry_name (hi : i < 11) :
    putEntry sector off name attr first size (off + i) = name.getD i 0 := by
  simp only [putEntry]
  rw [wr32_of_disjoint (by omega), wr16_of_disjoint (by omega), if_pos (by omega),
    Nat.add_sub_cancel_left]

theorem putEntry_attr : putEntry sector off name attr first size (off + 11) = attr := by
  simp only [putEntry]
  rw [wr32_of_disjoint (by omega), wr16_of_disjoint (by omega), if_neg (by omega), if_pos rfl]

theorem putEntry_first :
    rd16 (putEntry sector off name attr first size) (off + 26) = first % 2 ^ 16 := by
  simp only [putEntry]
  rw [rd16_wr32_of_disjoint (by omega), rd16_wr16_self]

theorem putEntry_rawName (hname : name.length = 11) :
    rawName (putEntry sector off name attr first size) off = name := by
  unfold rawName
  refine ext_getElem (by simp [hname]) fun i h1 h2 => ?_
  rw [getElem_map, getElem_range, putEntry_name _ _ _ _ _ _ (by omega),
    getD_eq_getElem?_getD, getElem?_eq_getElem h2, Option.getD_some]

end PutEntry

/-! ## Names -/

theorem up_eq_of_not_letter {c b : UInt8} (hb : ¬ (0x41 ≤ b ∧ b ≤ 0x5A)) (h : up c = b) :
    c = b := by
  unfold up at h
  split at h
  case isTrue hc =>
    -- a letter becomes a letter
    have hsub : (c - 0x20).toNat = c.toNat - 32 :=
      UInt8.toNat_sub_of_le _ _ (UInt8.le_trans (by decide) hc.1)
    rw [h] at hsub
    simp only [UInt8.le_iff_toNat_le, UInt8.reduceToNat] at hb hc
    omega
  case isFalse => exact h

theorem length_padTo (n : Nat) (s : CString) : (padTo n s).length = n := by
  simp only [padTo, length_append, length_map, length_take, length_replicate]
  omega

theorem length_to83 (name : CString) : (to83 name).length = 11 := by
  simp only [to83, length_append, length_padTo]

/-- The first byte of the name of an entry. -/
theorem to83_head (b : UInt8) (rest : CString) :
    (to83 (b :: rest)).getD 0 0 = if b = dot then blank else up b := by
  unfold to83
  split
  case isTrue h =>
    subst h
    rfl
  case isFalse h =>
    rw [takeWhile_cons_of_pos (by simpa using h)]
    rfl

/-- The first byte of an entry's name is no special one, unless it is given as such. -/
theorem head_ne {b v : UInt8} (hb : b ≠ v) (hv : v ≠ blank) (hletter : ¬ (0x41 ≤ v ∧ v ≤ 0x5A)) :
    (if b = dot then blank else up b) ≠ v := by
  split
  · exact hv.symm
  · exact fun h => hb (up_eq_of_not_letter hletter h)

theorem head_ne_dot (b : UInt8) : (if b = dot then blank else up b) ≠ dot := by
  split
  · decide
  case isFalse h => exact fun heq => h (up_eq_of_not_letter (by decide) heq)

/-- An entry as `lateran_write_file` and `lateran_mkdir` write it. -/
structure Put (d : Disk) (x : Slot g) (leaf : CString) (attr : UInt8) (first : Nat) : Prop where
  head : x.byte d 0 = (to83 leaf).getD 0 0
  attr_eq : x.byte d 11 = attr
  first_eq : x.first d = first
  name : rawName (d x.sector) x.off = to83 leaf

theorem put_putEntry (d : Disk) (x : Slot g) (leaf : CString) (attr : UInt8) {first : Nat}
    (size : Nat) (hfirst : first < 2 ^ 16) :
    Put (update d x.sector (putEntry (d x.sector) x.off (to83 leaf) attr first size)) x leaf
      attr first where
  head := by
    unfold byte
    rw [update_self]
    exact putEntry_name _ _ _ _ _ _ (by omega)
  attr_eq := by
    unfold byte
    rw [update_self, putEntry_attr]
  first_eq := by
    unfold Slot.first
    rw [update_self, putEntry_first, Nat.mod_eq_of_lt hfirst]
  name := by rw [update_self, putEntry_rawName _ _ _ _ _ _ (length_to83 leaf)]

variable {b : UInt8} {rest : CString} {attr : UInt8} {first : Nat}

section
variable (h : Put d x (b :: rest) attr first)
include h

theorem Put.used (hb : b ≠ 0) : x.byte d 0 ≠ 0 := by
  rw [h.head, to83_head]
  exact head_ne hb (by decide) (by decide)

theorem Put.isEntry (hb : b ≠ 0) (hmark : b ≠ 0xE5)
    (hattr : ¬ (attr = 0x0F ∨ attr &&& 0x08 ≠ 0)) : IsEntry d x where
  used := h.used hb
  kept := by
    rw [h.head, to83_head]
    exact head_ne hmark (by decide) (by decide)
  plain := by rw [h.attr_eq]; exact hattr
  named := by
    rintro ⟨-, hname⟩
    have hdot : (to83 (b :: rest)).getD 0 0 = dot := by
      rw [h.name] at hname
      rcases mem_cons.mp hname with heq | hname
      · rw [heq]; rfl
      · rw [mem_singleton.mp hname]; rfl
    rw [to83_head] at hdot
    exact head_ne_dot b hdot

end

theorem mem_of_nextComponent (path : CString) (c : UInt8) :
    (c ∈ (nextComponent path).1 → c ∈ path) ∧ (c ∈ (nextComponent path).2 → c ∈ path) := by
  refine ⟨fun h => ?_, fun h => ?_⟩
  · exact (takeWhile_sublist _).mem (mem_of_mem_take h)
  · exact mem_of_mem_drop ((dropWhile_sublist _).mem h)

/-- The leaf is a part of the path. -/
theorem resolveFrom_leaf {fuel : Nat} {cur loc : DirLoc} {path leaf : CString}
    (h : resolveFrom g d fuel cur path = some (loc, leaf)) : leaf ≠ [] ∧ ∀ c ∈ leaf, c ∈ path := by
  induction fuel generalizing cur path with
  | zero => cases h
  | succ fuel ih =>
    unfold resolveFrom at h
    split at h
    case h_1 comp tail hnext =>
    have hmem := mem_of_nextComponent path
    rw [hnext] at hmem
    split at h
    · split at h
      · cases h
      case isFalse hne =>
        cases h
        exact ⟨hne, fun c hc => (hmem c).1 hc⟩
    · split at h
      · cases h
      · split at h
        · cases h
        · obtain ⟨hne, hleaf⟩ := ih h
          exact ⟨hne, fun c hc => (hmem c).2 (hleaf c hc)⟩

theorem resolveParent_leaf {loc : DirLoc} {path leaf : CString}
    (h : resolveParent g d path = some (loc, leaf)) : leaf ≠ [] ∧ ∀ c ∈ leaf, c ∈ path := by
  obtain ⟨hne, hmem⟩ := resolveFrom_leaf h
  exact ⟨hne, fun c hc => (dropWhile_sublist _).mem (hmem c hc)⟩

/-! ## What a call needs -/

/-- The path leads to a directory of the tree. -/
def IsDirectory (g : Layout) (d : Disk) (t : Slot g → Option (Item Nat)) (loc : DirLoc) : Prop :=
  ∃ dir, Locates g d t loc dir

/-- A directory in the slot `x` has nothing with clusters in it. -/
def NothingInside (t : Slot g → Option (Item Nat)) (x : Slot g) : Prop :=
  ∀ (s : Slot g) c item, s.home = some c → c ∈ dirCells (t x) → t s = some item → item.chain = []

/-- The entry at this place may be overwritten or unlinked. -/
def Removable (g : Layout) (d : Disk) (t : Slot g → Option (Item Nat)) (place : Nat × Nat) : Prop :=
  ∀ x : Slot g, x.sector = place.1 → x.off = place.2 → ¬ IsDot d x ∧ NothingInside t x

/-- The call does not run into one of the cases that the code gets wrong. -/
def Fair (g : Layout) (d : Disk) (t : Slot g → Option (Item Nat)) : Op → Prop
  | .write path buf => 0 ∉ path ∧ ∀ parent leaf, resolveParent g d path = some (parent, leaf) →
      IsDirectory g d t parent ∧ (leaf.head? ≠ some 0xE5 ∨ buf = []) ∧
      ∀ place, dirFind g d parent leaf = some place → Removable g d t place ∧
        (rd16 (d place.1) (place.2 + 26) ≠ 0 →
          clustersFor g buf.length ≤
            freeClusters g (freeChain g d (rd16 (d place.1) (place.2 + 26))))
  | .unlink path => ∀ parent leaf place, resolveParent g d path = some (parent, leaf) →
      dirFind g d parent leaf = some place → IsDirectory g d t parent ∧ Removable g d t place
  | .mkdir path => 0 ∉ path ∧ ∀ parent leaf, resolveParent g d path = some (parent, leaf) →
      dirFind g d parent leaf = none → IsDirectory g d t parent ∧ leaf.head? ≠ some 0xE5

/-- Every call of the run is fair. -/
abbrev FairRun (g : Layout) : Disk → List Op → Prop :=
  Traces.EachStep (step g) fun d op => ∀ t, Tree g d t [] → Fair g d t op

/-! ## Writing a file -/

/-- The chain of the old contents of a slot is freed. -/
def FreedFrom (g : Layout) (d d₀ : Disk) (t : Slot g → Option (Item Nat)) (x : Slot g) : Prop :=
  Edit g d d₀ (fun c => if c ∈ cells (t x) then 0 else fatNext g d c) (fun _ => False)

/-- The slot is rewritten with a chain of clusters that were free, or were those of its old
contents. -/
theorem rewrites_file {d₀ d₁ d₂ : Disk} {l : List Nat} {first' : Nat} {new : Option (Item Nat)}
    (htree : Tree g d t []) (hx : Reach home t x) (hinside : NothingInside t x)
    (hbefore : x.byte d 0 = 0 → ∀ s, Precedes t s x → s.byte d 0 ≠ 0)
    (hfreed : FreedFrom g d d₀ t x) (hgrown : Grown g d₀ d₁ first' l) (hput : SlotWritten d₁ d₂ x)
    (hused : x.byte d₂ 0 ≠ 0) (hitem : Describes g d₂ x new) (hcells : cells new = l)
    (hdirs : dirCells new = []) : Rewrites g d d₂ t x new := by
  have hfresh : ∀ c ∈ l, c ∈ cells (t x) ∨ ¬ Owned home t c := fun c hc => by
    obtain ⟨-, hlt, hzero⟩ := hgrown.fresh c hc
    rw [hfreed.fat_eq c (lt_fatEntries htree.covers hlt)] at hzero
    split at hzero
    case isTrue hmem => exact .inl hmem
    case isFalse => exact .inr (htree.not_owned_of_free hzero)
  have htable : ∀ c < g.fatEntries, c ∉ l → fatNext g d₂ c =
      if c ∈ cells (t x) then 0 else fatNext g d c := fun c hc hnot => by
    rw [hput.fat c hc, hgrown.table c hc hnot, hfreed.fat_eq c hc]
  exact
    { reach := hx
      item := hitem
      fresh := by rw [hcells]; exact hfresh
      emptied := fun s c item hhome hold _ => hinside s c item hhome hold
      table := fun c hc hold hnew => by rw [htable c hc (hcells ▸ hnew), if_neg hold]
      freed := fun c hold hnew => by
        have hlt := htree.owned_lt (owned_of_mem_cells hx hold)
        rw [htable c (lt_fatEntries htree.covers hlt) (hcells ▸ hnew), if_pos hold]
      slots := fun s hne hs hkeep => by
        intro i hi
        rw [hput.sameSlot hne i hi]
        refine sameSlot_of_sector (?_ : d₁ s.sector = d s.sector) i hi
        rw [hgrown.data _ s.rootStart_le, hfreed.data _ s.rootStart_le fun _ h => h.elim]
        intro c hc
        refine not_inCluster (hgrown.fresh c hc).1 fun hhome => ?_
        rcases hfresh c hc with hold | hfree
        · -- the cluster belongs to the directory around `s`, so that is the one given up
          obtain ⟨y, hy, hdir⟩ := hs.home_mem hhome
          have heq := htree.sound.eq_of_mem_cells hy hx (mem_cells_of_mem_dirCells hdir) hold
          have := hkeep c hhome (heq ▸ hdir)
          rw [hdirs] at this
          cases this
        · exact hfree (owned_of_reach hs hhome)
      mirrored := hput.mirrored (hgrown.mirrored (hfreed.mirrored htree.mirrored))
      used := hused
      before := hbefore
      blank := fun _ c _ hmem => by rw [hdirs] at hmem; cases hmem
      order := fun _ _ c _ _ hmem => by rw [hdirs] at hmem; cases hmem
      cross := fun l' hl' => by
        rw [hl'] at hdirs
        have hnil : l' = [] := hdirs
        subst hnil
        intro _ _ i j c c' _ hi
        cases hi }

theorem Grown.first_lt {d₀ : Disk} {l : List Nat} {first' : Nat} (h : Grown g d₀ d first' l) :
    first' < 2 ^ 16 := by
  rcases h.linked with ⟨rfl, -⟩ | ⟨hne, hlink⟩
  · decide
  · cases l with
    | nil => exact absurd rfl hne
    | cons y l =>
      have hy := not_stop_of_mem hlink y mem_cons_self
      have heq := hlink.1
      omega

variable {buf : List UInt8}

/-- The contents of the slot `x` are replaced by a file, unless the disk is full. -/
theorem consistent_writeInto {d₀ : Disk} (htree : Tree g d t [])
    (hx : Reach home t x) (hinside : NothingInside t x)
    (hbefore : x.byte d 0 = 0 → ∀ s, Precedes t s x → s.byte d 0 ≠ 0)
    (hfreed : FreedFrom g d d₀ t x) (hb : b ≠ 0) (hmark : b ≠ 0xE5 ∨ buf = [])
    (hroom : cells (t x) ≠ [] → clustersFor g buf.length ≤ freeClusters g d₀) :
    Consistent g (writeInto g d₀ (x.sector, x.off) (b :: rest) buf).2 := by
  have hstart : Grown g d₀ d₀ 0 [] := grown_refl d₀
  have hends : EndsWith [] 0 := fun h => absurd rfl h
  unfold writeInto
  rcases writeChain_spec htree.covers buf.length d₀ 0 0 [] buf hstart hends with
    ⟨first', l, hsome, hgrown⟩ | ⟨hnone, hneed, hedit⟩
  · -- the data is written, and the entry after it
    generalize hr : writeChain g buf.length d₀ 0 0 buf = r at hsome hgrown
    obtain ⟨o, d₁⟩ := r
    obtain rfl : o = some first' := hsome
    simp only at ⊢
    have hput := put_putEntry d₁ x (b :: rest) 0x20 buf.length hgrown.first_lt
    have hwritten := slotWritten_putEntry d₁ x (to83 (b :: rest)) 0x20 first' buf.length
    generalize update d₁ x.sector _ = d₂ at hput hwritten
    by_cases hE5 : b = 0xE5
    · -- an empty file with the mark of a deleted one
      have hbuf : buf = [] := hmark.resolve_left fun h => h hE5
      subst hbuf
      obtain ⟨rfl, rfl⟩ : 0 = first' ∧ d₀ = d₁ := by simpa [writeChain] using hr
      have hdesc : Describes g d₂ x none := fun he => he.kept (by
        rw [hput.head, hE5]
        rfl)
      exact ⟨_, htree.rewrite (rewrites_file htree hx hinside hbefore hfreed hstart hwritten
        (hput.used hb) hdesc rfl rfl) (by simp) (by simp)⟩
    · have hchain : Chain g (fatNext g d₂) (x.first d₂) l := by
        rw [hput.first_eq]
        exact hgrown.chain.congr fun c hc =>
          hwritten.fat c (lt_fatEntries htree.covers (hgrown.fresh c hc).2.1)
      have hdesc : Describes g d₂ x (some ⟨false, l⟩) :=
        ⟨hput.isEntry hb hE5 (by decide), by rw [hput.attr_eq]; rfl, hchain⟩
      exact ⟨_, htree.rewrite (rewrites_file htree hx hinside hbefore hfreed hgrown hwritten
        (hput.used hb) hdesc rfl rfl) (by simp) (by simp)⟩
  · -- the disk is full: the old contents had no clusters, or there would have been room
    have hempty : cells (t x) = [] := by
      by_contra hne
      exact absurd (hroom hne) (by omega)
    generalize writeChain g buf.length d₀ 0 0 buf = r at hnone hedit
    obtain ⟨o, d₁⟩ := r
    obtain rfl : o = none := hnone
    have hfat : ∀ c < g.fatEntries, fatNext g d₀ c = fatNext g d c := fun c hc => by
      rw [hfreed.fat_eq c hc, if_neg (by rw [hempty]; simp)]
    have hfat₁ : ∀ c < g.fatEntries, fatNext g d₁ c = fatNext g d c := fun c hc => by
      rw [hedit.fat_eq c hc, hfat c hc]
    refine ⟨t, htree.same (fun s hs => ?_) (fun c hc => ?_) (fun c h2 hlt hfree hnot => ?_)
      (by simp) (hedit.mirrored (hfreed.mirrored htree.mirrored))⟩
    · refine sameSlot_of_edit (hfreed.trans hedit) (fun c hc => ?_) hs
      obtain ⟨h2, hlt, hzero⟩ := hc.resolve_left id
      rw [hfat c (lt_fatEntries htree.covers hlt)] at hzero
      exact ⟨h2, htree.not_owned_of_free hzero⟩
    · exact hfat₁ c (lt_fatEntries htree.covers (htree.owned_lt hc))
    · rw [hfat₁ c (lt_fatEntries htree.covers hlt)]
      exact htree.free c h2 hlt hfree hnot

/-- A slot that is found holds an item of the tree. -/
theorem Tree.held_of_hit (htree : Tree g d t pending) (hx : Reach home t x)
    (hhit : Hit (d x.sector) x.off) (hdot : ¬ IsDot d x) :
    ∃ item, t x = some item ∧ Chain g (fatNext g d) (x.first d) item.chain := by
  have hentry : IsEntry d x := ⟨hhit.used, hhit.kept, hhit.plain, hdot⟩
  have hdesc := htree.items x hx
  cases ht : t x with
  | none =>
    rw [ht] at hdesc
    exact absurd hentry hdesc
  | some item =>
    rw [ht] at hdesc
    exact ⟨item, rfl, hdesc.2.2⟩

/-- Nothing is in a slot that can be taken. -/
theorem Takeable.eq_none (h : Takeable d t x) (htree : Tree g d t pending) : t x = none := by
  have hdesc := htree.items x h.reach
  cases ht : t x with
  | none => rfl
  | some item =>
    rw [ht] at hdesc
    exact (h.free.elim hdesc.1.used hdesc.1.kept).elim

theorem consistent_write (htree : Tree g d t []) (hfair : Fair g d t (.write path buf)) :
    Consistent g (lateranWriteFile g d path buf).2 := by
  unfold lateranWriteFile
  cases hres : resolveParent g d path with
  | none => exact ⟨t, htree⟩
  | some found =>
    obtain ⟨parent, leaf⟩ := found
    obtain ⟨hzero, hfair⟩ := hfair
    obtain ⟨⟨dir, hloc⟩, hmark, htarget⟩ := hfair parent leaf hres
    obtain ⟨hne, hmem⟩ := resolveParent_leaf hres
    obtain ⟨b, rest, rfl⟩ := exists_cons_of_ne_nil hne
    have hb : b ≠ 0 := fun h => hzero (h ▸ hmem b mem_cons_self)
    have hmark' : b ≠ 0xE5 ∨ buf = [] := hmark.imp_left fun h heq => h (by rw [heq]; rfl)
    simp only
    cases hfind : dirFind g d parent (b :: rest) with
    | some place =>
      obtain ⟨sec, off⟩ := place
      obtain ⟨x, hx, rfl, rfl, hhit⟩ := dirFind_spec htree hloc hfind
      obtain ⟨hremove, hroom⟩ := htarget _ hfind
      obtain ⟨hdot, hinside⟩ := hremove x rfl rfl
      obtain ⟨item, hitem, hchain⟩ := htree.held_of_hit hx hhit hdot
      have hcells : cells (t x) = item.chain := by rw [hitem]; rfl
      refine consistent_writeInto htree hx hinside (fun h => absurd h hhit.used) ?_ hb hmark'
        fun hne => ?_
      · unfold FreedFrom
        rw [hcells]
        exact edit_freeChain htree.covers hchain
      · refine hroom fun hfirst => hne ?_
        rw [hcells]
        have hfirst' : x.first d = 0 := hfirst
        exact (hfirst' ▸ hchain).eq_nil
    | none =>
      rcases dirFreeSlot_spec htree hloc with hfull | ⟨t', x, hslot, htree', htake, -⟩
      · simp only [hfull]
        exact ⟨t, htree⟩
      · generalize dirFreeSlot g d parent = r at hslot htree' htake
        obtain ⟨o, d₀⟩ := r
        obtain rfl : o = some (x.sector, x.off) := hslot
        have hnone := htake.eq_none htree'
        have hcells : cells (t' x) = [] := by rw [hnone]; rfl
        refine consistent_writeInto htree' htake.reach ?_ (fun _ => htake.before) ?_ hb hmark'
          fun hne => absurd hcells hne
        · intro s c item _ hc
          rw [hnone] at hc
          cases hc
        · unfold FreedFrom
          rw [hcells]
          exact (edit_refl d₀ _).mono (by simp) fun _ h => h

/-! ## Unlinking -/

/-- An entry is marked as deleted and its chain is freed. -/
theorem consistent_remove {item : Item Nat} (htree : Tree g d t []) (hx : Reach home t x)
    (hused : x.byte d 0 ≠ 0) (hitem : t x = some item)
    (hchain : Chain g (fatNext g d) (x.first d) item.chain) (hinside : NothingInside t x) :
    Consistent g (freeChain g
      (update d x.sector (update (d x.sector) x.off 0xE5)) (x.first d)) := by
  have hwritten : SlotWritten d
      (update d x.sector (update (d x.sector) x.off 0xE5)) x :=
    slotWritten_update d x _ fun i hi => update_of_ne (by omega) _ _
  have hbyte : x.byte (update d x.sector (update (d x.sector) x.off 0xE5)) 0 = 0xE5 := by
    unfold byte
    rw [update_self]
    exact update_self ..
  generalize update d x.sector _ = d₁ at hwritten hbyte
  have hcells : cells (t x) = item.chain := by rw [hitem]; rfl
  have hrange := fun c hc => hchain.mem_range (c := c) hc
  have hfat : ∀ c < g.fatEntries, fatNext g d₁ c = fatNext g d c := hwritten.fat
  have hedit := edit_freeChain htree.covers
    (hchain.congr fun c hc => hfat c (lt_fatEntries htree.covers (hrange c hc).2))
  have hsector (s : Slot g) : freeChain g d₁ (x.first d) s.sector = d₁ s.sector :=
    hedit.data _ s.rootStart_le fun _ h => h.elim
  generalize freeChain g d₁ (x.first d) = d₂ at hedit hsector
  have hbyte₂ : x.byte d₂ 0 = 0xE5 := by
    rw [sameSlot_of_sector (hsector x) 0 (by omega), hbyte]
  have hrewrites : Rewrites g d d₂ t x none :=
    { reach := hx
      item := fun he => he.kept hbyte₂
      fresh := by simp [cells]
      emptied := fun s c item' hhome hold _ => hinside s c item' hhome hold
      table := fun c hc hold _ => by
        rw [hedit.fat_eq c hc, if_neg (hcells ▸ hold), hfat c hc]
      freed := fun c hold _ => by
        rw [hcells] at hold
        rw [hedit.fat_eq c (lt_fatEntries htree.covers (hrange c hold).2), if_pos hold]
      slots := fun s hne _ _ i hi => by
        rw [sameSlot_of_sector (hsector s) i hi, hwritten.sameSlot hne i hi]
      mirrored := hedit.mirrored (hwritten.mirrored htree.mirrored)
      used := by rw [hbyte₂]; decide
      before := fun h => absurd h hused
      blank := fun _ _ _ hmem => by cases hmem
      order := fun _ _ _ _ _ hmem => by cases hmem
      cross := fun _ hl => by cases hl }
  exact ⟨_, htree.rewrite hrewrites (by simp) (by simp)⟩

theorem consistent_unlink (htree : Tree g d t []) (hfair : Fair g d t (.unlink path)) :
    Consistent g (lateranUnlink g d path).2 := by
  unfold lateranUnlink
  cases hres : resolveParent g d path with
  | none => exact ⟨t, htree⟩
  | some found =>
    obtain ⟨parent, leaf⟩ := found
    simp only
    cases hfind : dirFind g d parent leaf with
    | none => exact ⟨t, htree⟩
    | some place =>
      obtain ⟨sec, off⟩ := place
      obtain ⟨⟨dir, hloc⟩, hremove⟩ := hfair parent leaf _ hres hfind
      obtain ⟨x, hx, rfl, rfl, hhit⟩ := dirFind_spec htree hloc hfind
      obtain ⟨hdot, hinside⟩ := hremove x rfl rfl
      obtain ⟨item, hitem, hchain⟩ := htree.held_of_hit hx hhit hdot
      exact consistent_remove htree hx hhit.used hitem hchain hinside

/-! ## Making a directory -/

/-- The cluster holds a new directory: `.` and `..`, and zeros. -/
structure NewDirectory (g : Layout) (d : Disk) (c : Nat) : Prop where
  dots : ∃ self parent, d (g.clusterFirstSector c) = dotSector self parent
  zeros : ∀ sec, InCluster g c sec → sec ≠ g.clusterFirstSector c → d sec = fun _ => 0

theorem rawName_dotSector (self parent : Nat) :
    rawName (dotSector self parent) 0 ∈ dotNames ∧ rawName (dotSector self parent) 32 ∈
      dotNames := by
  have hfirst : rawName (dotSector self parent) 0 = dot :: replicate 10 blank := by
    have hcongr : rawName (dotSector self parent) 0 = rawName
        (putEntry (fun _ => 0) 0 (dot :: replicate 10 blank) 0x10 self 0) 0 := by
      refine map_congr_left fun i hi => putEntry_of_disjoint _ _ _ _ _ _ (.inl ?_)
      have := mem_range.mp hi
      omega
    rw [hcongr, putEntry_rawName _ _ _ _ _ _ rfl]
  have hsecond : rawName (dotSector self parent) 32 = dot :: dot :: replicate 9 blank :=
    putEntry_rawName _ _ _ _ _ _ rfl
  rw [hfirst, hsecond]
  simp [dotNames]

theorem dotSector_zero (self parent : Nat) (hi : 64 ≤ i) : dotSector self parent i = 0 := by
  unfold dotSector
  rw [putEntry_of_disjoint _ _ _ _ _ _ (.inr (by omega)),
    putEntry_of_disjoint _ _ _ _ _ _ (.inr (by omega))]

/-- The slots of a new directory are `.` and `..`, or free. -/
theorem NewDirectory.slot (h : NewDirectory g d c) (hs : s.home = some c) :
    (s.index < 2 ∧ IsDot d s) ∨ (2 ≤ s.index ∧ s.byte d 0 = 0) := by
  obtain ⟨self, parent, hdots⟩ := h.dots
  have hbase : s.base = g.clusterFirstSector c := by unfold base; rw [hs]
  have hsec : s.sector = g.clusterFirstSector c + s.index / 16 := by unfold sector; rw [hbase]
  by_cases hin : s.index < 16
  · have hsec' : s.sector = g.clusterFirstSector c := by omega
    have hoff : s.off = s.index * 32 := by unfold off; omega
    by_cases h2 : s.index < 2
    · refine .inl ⟨h2, by rw [hs]; rfl, ?_⟩
      rw [hsec', hdots, hoff]
      obtain h0 | h1 : s.index = 0 ∨ s.index = 1 := by omega
      · rw [h0]
        exact (rawName_dotSector self parent).1
      · rw [h1]
        exact (rawName_dotSector self parent).2
    · refine .inr ⟨by omega, ?_⟩
      unfold byte
      rw [hsec', hdots]
      exact dotSector_zero self parent (by omega)
  · refine .inr ⟨by omega, ?_⟩
    unfold byte
    rw [h.zeros _ (inCluster hs) (by omega)]

/-- The first byte of a dot entry. -/
theorem IsDot.byte (h : IsDot d s) : s.byte d 0 = dot := by
  have hhead : (rawName (d s.sector) s.off).head? = some dot := by
    rcases mem_cons.mp h.2 with heq | hmem
    · rw [heq]; rfl
    · rw [mem_singleton.mp hmem]; rfl
  exact Option.some.inj hhead

theorem inCluster_first (c : Nat) : InCluster g c (g.clusterFirstSector c) :=
  inCluster_add g.sectorsPerCluster_pos

/-- A directory stays where it is when only clusters outside the tree change. -/
theorem Locates.same {loc : DirLoc} {dir : Option (List Nat)} (h : Locates g d t loc dir)
    (hsame : ∀ s, Reach home t s → SameSlot d d' s) : Locates g d' t loc dir := by
  cases dir with
  | none => exact h
  | some l =>
    obtain ⟨hroot, hl, y, hy, hfirst⟩ := h
    exact ⟨hroot, hl, y, hy, by rw [(hsame y hy.1).first, hfirst]⟩

/-- The cluster of a new directory, taken and filled, but in no directory yet. -/
theorem Tree.newDirectory (htree : Tree g d t []) (halloc : Allocated g d d' c)
    (self parent : Nat) :
    let d₂ := update d' (g.clusterFirstSector c) (dotSector self parent)
    Tree g d₂ t [c] ∧ NewDirectory g d₂ c ∧ EndOfChain (fatNext g d₂ c) ∧
      ∀ s, Reach home t s → SameSlot d d₂ s := by
  intro d₂
  have htaken := htree.allocate halloc
  have hedit : Edit g d' d₂ (fatNext g d') (· = c) := edit_data d' _ (inCluster_first c)
  have hrange := fun x (hx : x < g.clusterEnd) => hedit.fat_eq x (lt_fatEntries htree.covers hx)
  have hsame₁ : ∀ s, Reach home t s → SameSlot d d' s := fun s hs =>
    sameSlot_of_edit halloc.edit
      (fun x hx => hx ▸ ⟨halloc.two_le, htree.not_owned_of_free halloc.free⟩) hs
  have hsame₂ : ∀ s, Reach home t s → SameSlot d' d₂ s := fun s hs =>
    sameSlot_of_edit hedit (fun x hx => hx ▸ ⟨halloc.two_le, htree.not_owned_of_free halloc.free⟩)
      hs
  refine ⟨htaken.same hsame₂ ?_ ?_ ?_ (hedit.mirrored htaken.mirrored),
    ⟨⟨self, parent, ?_⟩, ?_⟩, ?_,
    fun s hs i hi => (hsame₂ s hs i hi).trans (hsame₁ s hs i hi)⟩
  · exact fun x hx => hrange x (htree.owned_lt hx)
  · intro x h2 hlt hfree hnot
    rw [hrange x hlt]
    exact htaken.free x h2 hlt hfree hnot
  · intro x hx
    obtain ⟨h2, hlt, hne, hfree⟩ := htaken.unlinked x hx
    exact ⟨h2, hlt, by rw [hrange x hlt]; exact hne, hfree⟩
  · exact update_self ..
  · intro sec hsec hne
    change update d' _ _ sec = _
    rw [update_of_ne hne, halloc.zeros sec hsec]
  · rw [hrange c halloc.lt]
    exact halloc.isEnd htree.covers

/-- There is no slot for the new directory, and its cluster is given back. -/
theorem consistent_giveBack (htree : Tree g d t [c]) (hend : EndOfChain (fatNext g d c)) :
    Consistent g (freeChain g d c) := by
  obtain ⟨h2, hlt, -, hfree⟩ := htree.unlinked c (by simp)
  have hedit := edit_freeChain htree.covers (chain_singleton h2 hlt hend)
  have hother : ∀ x < g.clusterEnd, x ≠ c → fatNext g (freeChain g d c) x = fatNext g d x :=
    fun x hx hne => by
      rw [hedit.fat_eq x (lt_fatEntries htree.covers hx), if_neg (by simpa using hne)]
  refine ⟨t, htree.same (fun s hs => sameSlot_of_edit hedit (fun _ h => h.elim) hs) (fun x hx => ?_)
    (fun x hx2 hx hnot _ => ?_) (by simp) (hedit.mirrored htree.mirrored)⟩
  · refine hother x (htree.owned_lt hx) ?_
    rintro rfl
    exact hfree hx
  · by_cases hxc : x = c
    · rw [hxc, hedit.fat_eq c (lt_fatEntries htree.covers hlt), if_pos (by simp)]
    · rw [hother x hx hxc]
      exact htree.free x hx2 hx hnot (by simpa using hxc)

/-- The new directory is entered into its parent. -/
theorem consistent_enter (htree : Tree g d t [c]) (htake : Takeable d t x) (hb : b ≠ 0)
    (hmark : b ≠ 0xE5) (hend : EndOfChain (fatNext g d c)) (hdir : NewDirectory g d c) :
    Consistent g
      (update d x.sector (putEntry (d x.sector) x.off (to83 (b :: rest)) 0x10 c 0)) := by
  obtain ⟨h2, hlt, -, hfree⟩ := htree.unlinked c (by simp)
  have hcend := not_end_of_lt hlt
  have hput := put_putEntry d x (b :: rest) 0x10 0
    (by unfold EndOfChain at hcend; omega : c < 2 ^ 16)
  have hwritten := slotWritten_putEntry d x (to83 (b :: rest)) 0x10 c 0
  generalize update d x.sector _ = d₂ at hput hwritten
  have hnone := htake.eq_none htree
  have hhome : x.home ≠ some c := fun h => hfree (owned_of_reach htake.reach h)
  have hdir₂ : NewDirectory g d₂ c := by
    obtain ⟨self, parent, hdots⟩ := hdir.dots
    refine ⟨⟨self, parent, ?_⟩, fun sec hsec hne => ?_⟩
    · rw [hwritten.inCluster h2 hhome (inCluster_first c)]
      exact hdots
    · rw [hwritten.inCluster h2 hhome hsec]
      exact hdir.zeros sec hsec hne
  have hchain : Chain g (fatNext g d₂) (x.first d₂) [c] := by
    rw [hput.first_eq]
    refine chain_singleton h2 hlt ?_
    rw [hwritten.fat c (lt_fatEntries htree.covers hlt)]
    exact hend
  have hcells : cells (t x) = [] := by rw [hnone]; rfl
  have hrewrites : Rewrites g d d₂ t x (some ⟨true, [c]⟩) :=
    { reach := htake.reach
      item := ⟨hput.isEntry hb hmark (by decide), by rw [hput.attr_eq]; rfl, hchain⟩
      fresh := fun c' hc' => by
        rw [List.mem_singleton.mp hc']
        exact .inr hfree
      emptied := fun s c' item _ hold => by
        rw [hnone] at hold
        cases hold
      table := fun c' hc' _ _ => hwritten.fat c' hc'
      freed := fun c' hold => by
        rw [hcells] at hold
        cases hold
      slots := fun s hne _ _ => hwritten.sameSlot hne
      mirrored := hwritten.mirrored htree.mirrored
      used := hput.used hb
      before := fun _ => htake.before
      blank := fun s c' hs hmem _ he => by
        rw [List.mem_singleton.mp hmem] at hs
        rcases hdir₂.slot hs with ⟨-, hdot⟩ | ⟨-, hzero⟩
        · exact he.named hdot
        · exact he.used hzero
      order := fun s s' c' hs hs' hmem _ hindex hzero => by
        rw [List.mem_singleton.mp hmem] at hs hs'
        rcases hdir₂.slot hs with ⟨-, hdot⟩ | ⟨hge, -⟩
        · rw [hdot.byte] at hzero
          cases hzero
        · rcases hdir₂.slot hs' with ⟨hlt', -⟩ | ⟨-, hzero'⟩
          · omega
          · exact hzero'
      cross := fun l hl s s' i j a a' hij _ hj => by
        obtain rfl : [c] = l := congrArg Item.chain (Option.some.inj hl)
        have := (List.getElem?_eq_some_iff.mp hj).1
        simp only [List.length_singleton] at this
        omega }
  exact ⟨_, htree.rewrite hrewrites (fun c' hc' => .inl hc') (by simp)⟩

theorem consistent_mkdir (htree : Tree g d t []) (hfair : Fair g d t (.mkdir path)) :
    Consistent g (lateranMkdir g d path).2 := by
  unfold lateranMkdir
  cases hres : resolveParent g d path with
  | none => exact ⟨t, htree⟩
  | some found =>
    obtain ⟨parent, leaf⟩ := found
    simp only
    cases hfind : dirFind g d parent leaf with
    | some place => exact ⟨t, htree⟩
    | none =>
      obtain ⟨hzero, hfair⟩ := hfair
      obtain ⟨⟨dir, hloc⟩, hmark⟩ := hfair parent leaf hres hfind
      obtain ⟨hne, hmem⟩ := resolveParent_leaf hres
      obtain ⟨b, rest, rfl⟩ := exists_cons_of_ne_nil hne
      have hb : b ≠ 0 := fun h => hzero (h ▸ hmem b mem_cons_self)
      have hmark' : b ≠ 0xE5 := fun heq => hmark (by rw [heq]; rfl)
      rcases allocCluster_spec (d := d) htree.covers with ⟨hfull, hsame, -⟩ | halloc
      · simp only [hfull, hsame]
        exact ⟨t, htree⟩
      · generalize allocCluster g d = r at halloc
        obtain ⟨c, d₁⟩ := r
        have h2 := halloc.two_le
        rw [if_neg (by omega)]
        obtain ⟨htree₂, hdir, hend, hsame⟩ :=
          htree.newDirectory halloc c (if parent.isRoot then 0 else parent.cluster)
        generalize update d₁ (g.clusterFirstSector c) _ = d₂ at htree₂ hdir hend hsame
        rcases dirFreeSlot_spec htree₂ (hloc.same hsame) with hfull
          | ⟨t', x, hslot, htree', htake, hkeep⟩
        · simp only [hfull]
          exact consistent_giveBack htree₂ hend
        · generalize dirFreeSlot g d₂ parent = r at hslot htree' htake hkeep
          obtain ⟨o, d₃⟩ := r
          obtain rfl : o = some (x.sector, x.off) := hslot
          obtain ⟨hfat, hsectors⟩ := hkeep c (by simp)
          simp only at hsectors
          obtain ⟨self, up, hdots⟩ := hdir.dots
          refine consistent_enter htree' htake hb hmark' (by rw [hfat]; exact hend)
            ⟨⟨self, up, ?_⟩, fun sec hsec hne => ?_⟩
          · rw [hsectors _ (inCluster_first c)]
            exact hdots
          · rw [hsectors sec hsec]
            exact hdir.zeros sec hsec hne

/-! ## Runs -/

theorem consistent_step {op : Op} (h : Consistent g d)
    (hfair : ∀ t, Tree g d t [] → Fair g d t op) : Consistent g (step g d op) := by
  obtain ⟨t, htree⟩ := h
  cases op with
  | write path buf => exact consistent_write htree (hfair t htree)
  | unlink path => exact consistent_unlink htree (hfair t htree)
  | mkdir path => exact consistent_mkdir htree (hfair t htree)

/-- **Main theorem.** A run of fair calls keeps a volume consistent, whether the calls succeed or
not. -/
theorem consistent_run (g : Layout) (d : Disk) (ops : List Op) (h : Consistent g d)
    (hfair : FairRun g d ops) : Consistent g (run g d ops) :=
  Traces.run_of_invariant (fun _ _ hd hop => consistent_step hd hop) h hfair

/-! ## Two small volumes -/

/-- Two copies of a table of one sector, a root directory of sixteen slots, and `n` clusters of one
sector. -/
def smallLayout (n : Nat) : Layout where
  sectorsPerCluster := 1
  reserved := 1
  numFats := 2
  rootEntries := 16
  fatSize := 1
  capacity := 4 + n
  sectorsPerCluster_pos := by decide
  numFats_pos := by decide
  fatSize_pos := by decide
  rootEntries_pos := by decide

/-- An empty volume. -/
def blankDisk : Disk := fun _ _ => 0

theorem consistent_blankDisk (g : Layout) (hcover : g.clusterEnd ≤ g.fatEntries) :
    Consistent g blankDisk := by
  have hnone : ∀ s item, ¬ Held home (fun _ : Slot g => none) s item := fun s item h => by
    cases h.2
  exact ⟨fun _ => none, hcover, fun s _ he => he.used rfl,
    ⟨fun s item h => (hnone s item h).elim, fun s _ item _ _ h => (hnone s item h).elim⟩,
    fun _ _ _ _ _ => rfl, by simp, fun _ _ _ _ _ _ => rfl, fun _ _ _ _ _ _ => rfl⟩

/-- The paths `D` and `A`. -/
def pathD : CString := [0x44]
def pathA : CString := [0x41]

/-- A new file in the root directory may be written. -/
theorem fair_write_new {t : Slot g → Option (Item Nat)} (hzero : 0 ∉ path)
    (hres : resolveParent g d path = some ({}, path)) (hfind : dirFind g d {} path = none)
    (hmark : path.head? ≠ some 0xE5) : Fair g d t (.write path buf) := by
  refine ⟨hzero, fun parent leaf heq => ?_⟩
  obtain ⟨rfl, rfl⟩ : {} = parent ∧ path = leaf := by simpa [hres] using heq
  exact ⟨⟨none, rfl⟩, .inl hmark, fun place hplace => nomatch hfind.symm.trans hplace⟩

theorem consistent_run_smallLayout :
    Consistent (smallLayout 4)
      (run (smallLayout 4) blankDisk [.mkdir pathD, .write pathA [1, 2, 3]]) := by
  refine consistent_run _ _ _ (consistent_blankDisk _ (by decide))
    ⟨fun t _ => ⟨by decide, ?_⟩, ?_, trivial⟩
  · have hres : resolveParent (smallLayout 4) blankDisk pathD = some
      ({}, pathD) := by decide +kernel
    rintro parent leaf heq -
    obtain ⟨rfl, rfl⟩ : {} = parent ∧ pathD = leaf := by simpa [hres] using heq
    exact ⟨⟨none, rfl⟩, by decide⟩
  · exact fun t _ => fair_write_new (by decide) (by decide +kernel) (by decide +kernel) (by decide)

/-- A volume of one cluster, which belongs to the file `A`. -/
def fullDisk : Disk := step (smallLayout 1) blankDisk (.write pathA [7])

theorem consistent_fullDisk : Consistent (smallLayout 1) fullDisk :=
  consistent_step (consistent_blankDisk _ (by decide)) fun _ _ =>
    fair_write_new (by decide) (by decide +kernel) (by decide +kernel) (by decide)

/-- The file is overwritten with more than the disk can hold.  The call fails, and the entry is left
with a cluster that is free. -/
theorem overwrite_full :
    Consistent (smallLayout 1) fullDisk ∧
      ¬ Consistent (smallLayout 1)
        (run (smallLayout 1) fullDisk [.write pathA (replicate 513 7)]) := by
  refine ⟨consistent_fullDisk, fun ⟨t, htree⟩ => ?_⟩
  let x : Slot (smallLayout 1) := ⟨none, 0, by decide⟩
  have hdesc := htree.items x (.root rfl)
  have hfirst : x.first (run (smallLayout 1) fullDisk [.write pathA (replicate 513 7)]) = 2 := by
    decide +kernel
  have hfat : fatNext (smallLayout 1)
      (run (smallLayout 1) fullDisk [.write pathA (replicate 513 7)]) 2 = 0 := by
    decide +kernel
  have hentry : IsEntry (run (smallLayout 1) fullDisk [.write pathA (replicate 513 7)]) x :=
    ⟨by decide +kernel, by decide +kernel, by decide +kernel, fun h => by cases h.1⟩
  cases ht : t x with
  | none =>
    rw [ht] at hdesc
    exact hdesc hentry
  | some item =>
    rw [ht] at hdesc
    obtain ⟨-, -, ⟨hzero, -⟩ | ⟨hlink, hrange⟩⟩ := hdesc
    · omega
    · cases hl : item.chain with
      | nil =>
        rw [hl] at hlink
        exact absurd hlink (by unfold Linked EndOfChain; omega)
      | cons c l =>
        rw [hl] at hlink hrange
        refine fat_ne_zero_of_mem hlink (fun c hc => (hrange c hc).1) c mem_cons_self ?_
        rw [← hlink.1, hfirst, hfat]

end IndexOS.Lateran.Fat16
