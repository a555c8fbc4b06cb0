import IndexOS.Ext2.Semantics
import IndexOS.Ext2.Write

/-!
# Staying within the buffers

The functions of the driver index six buffers of fixed size with numbers that come from the
superblock and from the blocks they read.  This file asks for which superblocks no index can ever
leave its buffer, whatever the disk delivers:

* `anyDisk` — the disk as an adversary: a read may fail or deliver any bytes, a write may fail;
* `Within` — a function stays within its buffers against that adversary, and what it returns has a
  property its callers can use;
* `Fits` — the conditions on the superblock, and one lemma for each function that says it stays
  within its buffers if `Fits` holds;
* `run_ne_fault` — the adversary covers every run of the driver, behind the block cache and with
  any outcome of the transfers.
-/

set_option autoImplicit false

namespace IndexOS.Ext2

open Interaction LittleEndian Prog
open Testament (CString cstr slash)

/-! ## The disk as an adversary -/

/-- What is known of the commands when nothing is known of the disk. -/
def anyDisk : Spec Cmd Cmd.Ans Mem
  | .readBlock _ dst, m, Q => m.sb.blockSize ≤ dst.size ∧ ∀ ok data, Q ok (m.load dst data)
  | .writeBlock _ src, m, Q => m.sb.blockSize ≤ src.size ∧ ∀ ok, Q ok m
  | .readSector _, m, Q => ∀ r, Q r m
  | .writeSector _ _, m, Q => ∀ ok, Q ok m
  | .get, m, Q => Q m m
  | .set m', _, Q => Q () m'
  | .stop why, _, _ => why ≠ .fault

theorem anyDisk_monotone : Spec.Monotone anyDisk := by
  intro c m Q Q' hQ h
  cases c with
  | readBlock b dst => exact ⟨h.1, fun ok data => hQ _ _ (h.2 ok data)⟩
  | writeBlock b src => exact ⟨h.1, fun ok => hQ _ _ (h.2 ok)⟩
  | readSector n => exact fun r => hQ _ _ (h r)
  | writeSector n bytes => exact fun ok => hQ _ _ (h ok)
  | get | set => exact hQ _ _ h
  | stop why => exact h

/-- Whatever happens behind it, `read_block` only fills its destination. -/
theorem readBlock_mem (w : World) (b : Nat) (dst : Scratch) :
    ∃ data, (w.readBlock b dst).2.mem = w.mem.load dst data := by
  have hsingle : ∀ v : World, v.mem = w.mem →
      ∃ data, (v.readSingle b dst).2.mem = w.mem.load dst data := by
    intro v hv
    rw [World.readSingle]
    split
    · exact ⟨_, by rw [← hv]; rfl⟩
    · exact ⟨_, by rw [← hv]; rfl⟩
  rw [World.readBlock]
  split
  · exact ⟨_, rfl⟩
  · simp only
    split
    · split
      · obtain ⟨line, hl⟩ := fillWindow_frame b (World.fromBlock { w with raLast := b } b)
          (World.window { w with raLast := b } b) 0 (World.tick { w with raLast := b })
        rw [hl]
        exact ⟨_, rfl⟩
      · exact hsingle _ rfl
    · exact hsingle _ rfl

theorem writeSectors_mem (b : Nat) (src : Buf) (n : Nat) : ∀ (s : Nat) (w : World),
    (World.writeSectors b src n s w).2.mem = w.mem := by
  induction n with
  | zero => exact fun _ _ => rfl
  | succ n ih =>
    intro s w
    rw [World.writeSectors]
    split
    · simp only [World.tear]
      split
      · rfl
      · split <;> rfl
    · exact ih _ _

theorem writeBlock_mem (w : World) (b : Nat) (src : Buf) : (w.writeBlock b src).2.mem = w.mem := by
  have h := writeSectors_mem b src (w.mem.sb.blockSize / kSector) 0 w
  rw [World.writeBlock]
  split
  · rename_i w' heq
    rwa [heq] at h
  · rename_i w' heq
    rwa [heq] at h

/-- The adversary covers the commands of every world. -/
theorem keeps_anyDisk : Handler.Keeps World.handle World.mem anyDisk (· ≠ .fault) := by
  intro c w Q h
  cases c with
  | readBlock b dst =>
    obtain ⟨data, hd⟩ := readBlock_mem w b dst
    have hfit : fitsBuffer w.mem.sb dst = true := decide_eq_true h.1
    simp only [World.handle, hfit, if_true, hd]
    exact h.2 _ data
  | writeBlock b src =>
    have hfit : fitsBuffer w.mem.sb src = true := decide_eq_true h.1
    simp only [World.handle, hfit, if_true, writeBlock_mem]
    exact h.2 _
  | readSector | writeSector =>
    rw [World.handle]
    cases w.io 0 with
    | ok => exact h _
    | failed junk => exact h _
  | get => exact h
  | set m => exact h
  | stop why => exact h

/-! ## Functions that stay within their buffers -/

variable {α β : Type} {sb : Super} {x : α → β} {f : α → Driver β} {P R : α → Prop} {p : Driver α}
  {b : Scratch} {c : Prop}

/-- With the superblock `sb`, a function stays within its buffers whatever the disk delivers, and
what it returns satisfies `R`. -/
def Within (sb : Super) (p : Driver α) (R : α → Prop) : Prop :=
  ∀ m : Mem, m.sb = sb → p.wp anyDisk m fun a m' => m'.sb = sb ∧ R a

/-- The same where it does not matter what the function returns. -/
abbrev Stays (sb : Super) (p : Driver α) : Prop := Within sb p fun _ => True

/-- A function that stays within its buffers against the adversary does so in every world. -/
theorem run_ne_fault (h : Within sb p R) {w : World} (hw : w.mem.sb = sb) :
    w.run p ≠ .stop .fault := by
  intro hrun
  rw [World.run] at hrun
  have hsound := wp_sound keeps_anyDisk (h w.mem hw)
  rw [hrun] at hsound
  exact hsound rfl

theorem within_pure {a : α} (h : R a) : Within sb (pure a) R :=
  fun _ hm => ⟨hm, h⟩

theorem Stays.pure {a : α} : Stays sb (pure a) := within_pure trivial

theorem Within.bind {R : β → Prop} (hp : Within sb p P) (hf : ∀ a, P a → Within sb (f a) R) :
    Within sb (p >>= f) R :=
  fun m hm => wp_bind_of anyDisk_monotone (hp m hm) fun a m' h => hf a h.2 m' h.1

theorem Within.mono {P R : α → Prop} (hp : Within sb p P) (h : ∀ a, P a → R a) : Within sb p R :=
  fun m hm => wp_mono anyDisk_monotone (fun a _ h' => ⟨h'.1, h a h'.2⟩) (hp m hm)

theorem within_ite [Decidable c] {p q : Driver α} (hp : c → Within sb p R)
    (hq : ¬ c → Within sb q R) : Within sb (if c then p else q) R := by
  split
  · exact hp ‹_›
  · exact hq ‹_›

theorem Within.void (h : Within sb p P) : Stays sb (p >>= fun a => pure (x a)) :=
  h.bind fun _ _ => Stays.pure

theorem Stays.bind {R : β → Prop} (hp : Stays sb p) (hf : ∀ a, Within sb (f a) R) :
    Within sb (p >>= f) R :=
  Within.bind hp fun a _ => hf a

/-- A call that may find nothing. -/
theorem Within.option {P : Option α → Prop} {p : Driver (Option α)} {f : Option α → Driver β}
    (hp : Within sb p P) (hnone : Stays sb (f none))
    (hsome : ∀ a, P (some a) → Stays sb (f (some a))) :
    Stays sb (p >>= f) :=
  hp.bind fun r hr => by
    cases r with
    | none => exact hnone
    | some a => exact hsome a hr

/-- A call after which the function may return at once. -/
theorem Within.unless {c : α → Prop} [∀ a, Decidable (c a)] (hp : Within sb p P)
    (hf : ∀ a, P a → ¬ c a → Stays sb (f a)) :
    Stays sb (p >>= fun a => if c a then pure (x a) else f a) :=
  hp.bind fun a ha => within_ite (fun _ => Stays.pure) (hf a ha)

/-- A call after which the function goes on only if all is well. -/
theorem Within.provided {c : α → Prop} [∀ a, Decidable (c a)] (hp : Within sb p P)
    (hf : ∀ a, P a → c a → Stays sb (f a)) :
    Stays sb (p >>= fun a => if c a then f a else pure (x a)) :=
  hp.bind fun a ha => within_ite (hf a ha) fun _ => Stays.pure

/-- A test after which the function may return at once. -/
theorem within_guard [Decidable c] {a : α} (hp : ¬ c → Stays sb p) :
    Stays sb (if c then pure a else p) :=
  within_ite (fun _ => Stays.pure) hp

theorem within_when [Decidable c] {p : Driver Unit}
    (hp : c → Stays sb p) : Stays sb (when c p) :=
  within_ite hp fun _ => Stays.pure

theorem within_getMem : Within sb getMem fun m => m.sb = sb := fun _ hm => ⟨hm, hm⟩

theorem within_getSb : Within sb getSb fun s => s = sb :=
  within_getMem.bind fun _ h => within_pure h

/-- What follows `getSb` may take the superblock to be `sb`. -/
theorem within_bind_getSb {R : β → Prop} {f : Super → Driver β} (h : Within sb (f sb) R) :
    Within sb (getSb >>= f) R :=
  within_getSb.bind fun _ hs => hs ▸ h

/-- The head of a loop whose end depends on the superblock. -/
theorem within_loop {c : Super → Prop} [∀ s, Decidable (c s)] {x : Super → β} {f : Super → Driver β}
    (h : c sb → Stays sb (f sb)) : Stays sb (getSb >>= fun s => if c s then f s else pure (x s)) :=
  within_bind_getSb (within_ite h fun _ => Stays.pure)

theorem within_modifyMem {f : Mem → Mem} (h : ∀ m, (f m).sb = m.sb) :
    Stays sb (modifyMem f) :=
  within_getMem.bind fun m hm _ _ => ⟨(h m).trans hm, trivial⟩

theorem within_stop {why : Stop} (h : why ≠ .fault) : Within sb (stop why) R :=
  fun _ _ => h

theorem within_readBlock {b : Nat} {dst : Scratch} (h : sb.blockSize ≤ dst.size) :
    Stays sb (readBlock b dst) :=
  fun m hm => ⟨by rw [hm]; exact h, fun _ _ => ⟨hm, trivial⟩⟩

theorem within_writeBlock {b : Nat} {src : Scratch} (h : sb.blockSize ≤ src.size) :
    Stays sb (writeBlock b src) :=
  fun m hm => ⟨by rw [hm]; exact h, fun _ => ⟨hm, trivial⟩⟩

variable {n : Nat}

theorem within_readSector : Stays sb (readSector n) :=
  fun _ hm _ => ⟨hm, trivial⟩

theorem within_writeSector {bytes : Buf} :
    Stays sb (writeSector n bytes) :=
  fun _ hm _ => ⟨hm, trivial⟩

variable {i : Nat} {name : CString} {v : Nat}

theorem within_checkRange (h : i + n ≤ b.size) : Stays sb (checkRange b i n) := by
  rw [checkRange, if_pos h]
  exact Stays.pure

theorem within_peek (h : i + 1 ≤ b.size) : Within sb (peek b i) fun v => v < 256 :=
  (within_checkRange h).bind fun _ =>
    within_getMem.bind fun m _ => within_pure (m.buf b i).toNat_lt

theorem within_peek16 (h : i + 2 ≤ b.size) : Within sb (peek16 b i) fun v => v < 2 ^ 16 :=
  (within_checkRange h).bind fun _ =>
    within_getMem.bind fun m _ => within_pure (rd16_lt (m.buf b) i)

theorem within_peek32 (h : i + 4 ≤ b.size) : Within sb (peek32 b i) fun v => v < 2 ^ 32 :=
  (within_checkRange h).bind fun _ =>
    within_getMem.bind fun m _ => within_pure (rd32_lt (m.buf b) i)

theorem within_poke (h : i + 1 ≤ b.size) : Stays sb (poke b i v) :=
  (within_checkRange h).bind fun _ => within_modifyMem fun _ => rfl

theorem within_poke16 (h : i + 2 ≤ b.size) : Stays sb (poke16 b i v) :=
  (within_checkRange h).bind fun _ => within_modifyMem fun _ => rfl

theorem within_poke32 (h : i + 4 ≤ b.size) : Stays sb (poke32 b i v) :=
  (within_checkRange h).bind fun _ => within_modifyMem fun _ => rfl

theorem within_slice (h : i + n ≤ b.size) : Stays sb (slice b i n) :=
  within_guard fun _ =>
    (within_checkRange h).bind fun _ =>
      within_getMem.void

theorem within_blit {bytes : Buf} (h : i + n ≤ b.size) : Stays sb (blit b i bytes n) :=
  within_guard fun _ =>
    (within_checkRange h).bind fun _ => within_modifyMem fun _ => rfl

theorem within_udiv {a b : Nat} (h : 0 < b) : Within sb (udiv a b) fun v => v = a / b := by
  rw [udiv, if_neg (by omega)]
  exact within_pure rfl

theorem within_umod {a b : Nat} (h : 0 < b) : Within sb (umod a b) fun v => v = a % b := by
  rw [umod, if_neg (by omega)]
  exact within_pure rfl

/-! ## The functions that fit every superblock -/

theorem within_sbAdjust (dblocks dinodes : Nat) :
    Stays sb (sbAdjust dblocks dinodes) := by
  refine Stays.bind ?_ fun r => ?_
  · exact within_readSector.option Stays.pure fun lo _ =>
      within_readSector.option Stays.pure fun hi _ => Stays.pure
  · cases r with
    | none => exact Stays.pure
    | some r => exact within_writeSector.bind fun _ => within_writeSector.void

theorem within_inodeBytes : Within sb inodeBytes fun v => v < 2 ^ 32 := within_peek32 (by decide)

theorem within_inodeIsDir : Stays sb inodeIsDir :=
  (within_peek16 (by decide)).void

theorem within_inodeIsSymlink : Stays sb inodeIsSymlink :=
  (within_peek16 (by decide)).void

theorem within_nameMatches (name : CString) (off n : Nat) : ∀ i,
    off + i + n ≤ Scratch.size .blk → Stays sb (nameMatches name off n i) := by
  induction n with
  | zero => exact fun i _ => Stays.pure
  | succ n ih =>
    intro i h
    refine (within_peek (by omega)).provided fun v _ _ => ?_
    exact ih (i + 1) (by omega)

theorem within_isDots {off nlen : Nat} (h : off + nlen ≤ Scratch.size .blk) :
    Stays sb (isDots off nlen) := by
  refine within_ite (fun _ => ?_) fun _ => within_ite (fun _ => ?_) fun _ => Stays.pure
  · exact (within_peek (by omega)).void
  · refine (within_peek (by omega)).provided fun _ _ _ => ?_
    exact (within_peek (by omega)).void

theorem dentryPut_sb (m : Mem) (path : CString) (ino : Nat) : (m.dentryPut path ino).sb = m.sb := by
  rw [Mem.dentryPut]
  split <;> rfl

theorem within_bmpTest (h : i < 32768) : Stays sb (bmpTest i) :=
  (within_peek (by simp only [Scratch.size, kMaxBlock]; omega)).void

theorem within_bmpSet (h : i < 32768) : Stays sb (bmpSet i) :=
  (within_peek (by simp only [Scratch.size, kMaxBlock]; omega)).bind fun _ _ =>
    within_poke (by simp only [Scratch.size, kMaxBlock]; omega)

theorem within_bmpClear (h : i < 32768) : Stays sb (bmpClear i) :=
  (within_peek (by simp only [Scratch.size, kMaxBlock]; omega)).bind fun _ _ =>
    within_poke (by simp only [Scratch.size, kMaxBlock]; omega)

theorem within_putDirent {off ino len type : Nat}
    (h : off + 8 + name.length ≤ Scratch.size .blk) :
    Stays sb (putDirent off ino len name type) := by
  refine (within_poke32 (by omega)).bind fun _ => ?_
  refine (within_poke16 (by omega)).bind fun _ => ?_
  refine (within_poke (by omega)).bind fun _ => ?_
  exact (within_poke (by omega)).bind fun _ => within_blit h

/-! ## What a superblock has to satisfy -/

/-- The superblocks with which no function leaves a buffer. -/
structure Fits (sb : Super) : Prop where
  /-- A directory record may end up to 255 bytes behind its block: with the largest blocks that is
  behind the buffer. -/
  blockSize : sb.blockSize ≤ 2048
  /-- `write_inode` and the callers that clear `g_inode` use the inode size unchecked. -/
  inodeSize : sb.inodeSize ≤ 256
  /-- The inodes of a group have their bits in `g_bmp`. -/
  inodesPerGroup : sb.inodesPerGroup ≤ 32768
  /-- So do its blocks; or the groups are larger and start so close to 2 ^ 32 that every bitmap is
  left before its end, because the block numbers reach `block_count` or wrap around. -/
  blocksPerGroup : sb.blocksPerGroup ≤ 32768 ∨
    (2 ^ 32 ≤ sb.firstDataBlock + 32768 ∧
      (sb.groupCount ≤ 1 ∨
        sb.blockCount ≤ (sb.firstDataBlock + sb.blocksPerGroup) % 2 ^ 32 + 32768))

instance (sb : Super) : Decidable (Fits sb) :=
  decidable_of_iff (sb.blockSize ≤ 2048 ∧ sb.inodeSize ≤ 256 ∧ sb.inodesPerGroup ≤ 32768 ∧
      (sb.blocksPerGroup ≤ 32768 ∨ (2 ^ 32 ≤ sb.firstDataBlock + 32768 ∧
        (sb.groupCount ≤ 1 ∨
          sb.blockCount ≤ (sb.firstDataBlock + sb.blocksPerGroup) % 2 ^ 32 + 32768))))
    ⟨fun ⟨h1, h2, h3, h4⟩ => ⟨h1, h2, h3, h4⟩, fun ⟨h1, h2, h3, h4⟩ => ⟨h1, h2, h3, h4⟩⟩

/-- A group bitmap is left at or before bit `n`: there the group ends or the block number is not
below `block_count`. -/
def LeftAt (sb : Super) (g n : Nat) : Prop :=
  n ≤ 32768 ∧ (sb.blocksPerGroup ≤ n ∨
    sb.blockCount ≤ (sb.firstDataBlock + g * sb.blocksPerGroup + n) % 2 ^ 32)

section Fits

variable (ha : sb.Accepted) (hf : Fits sb)

include ha in
theorem Super.Accepted.le_blockSize : 1024 ≤ sb.blockSize := by
  rcases ha.blockSize with h | h | h <;> omega

include hf in
/-- A block fills at most half of its buffer. -/
theorem Fits.half {b : Scratch} (hb : b ≠ .inode) : sb.blockSize + 2048 ≤ b.size := by
  have := hf.blockSize
  cases b <;> simp_all [Scratch.size, kMaxBlock]

include hf in
theorem Fits.blk : sb.blockSize + 2048 ≤ Scratch.size .blk := hf.half (by decide)

include hf in
theorem Fits.bmp : sb.blockSize + 2048 ≤ Scratch.size .bmp := hf.half (by decide)

include ha hf in
/-- Every group bitmap is left in time. -/
theorem Fits.leftAt {g : Nat} (hg : g < sb.groupCount) : ∃ n, LeftAt sb g n := by
  rcases hf.blocksPerGroup with h | ⟨hfirst, hgroups⟩
  · exact ⟨sb.blocksPerGroup, h, Or.inl (Nat.le_refl _)⟩
  by_cases hbig : sb.blocksPerGroup ≤ 32768
  · exact ⟨sb.blocksPerGroup, hbig, Or.inl (Nat.le_refl _)⟩
  have hlt := ha.firstDataBlock
  have hcount := ha.blockCount
  rcases Nat.eq_zero_or_pos g with rfl | hpos
  · -- the numbers of the first group run into 2 ^ 32 - 1
    exact ⟨2 ^ 32 - 1 - sb.firstDataBlock, by omega, Or.inr (by omega)⟩
  have hone : sb.blocksPerGroup ≤ g * sb.blocksPerGroup := Nat.le_mul_of_pos_left _ hpos
  have hnext : (g + 1) * sb.blocksPerGroup ≤ sb.groupCount * sb.blocksPerGroup :=
    Nat.mul_le_mul_right _ hg
  rw [Nat.add_mul, Nat.one_mul, ha.groupCount] at hnext
  have hdiv := Nat.div_mul_le_self
    ((sb.blockCount + 2 ^ 32 - sb.firstDataBlock + sb.blocksPerGroup - 1) % 2 ^ 32)
    sb.blocksPerGroup
  have hmod := Nat.mod_lt
    (sb.blockCount + 2 ^ 32 - sb.firstDataBlock + sb.blocksPerGroup - 1) (Nat.two_pow_pos 32)
  have hblocks := hgroups.resolve_left (by omega)
  -- the numbers of a later group start at `g * blocksPerGroup - (2 ^ 32 - firstDataBlock)`
  by_cases hend : sb.firstDataBlock + g * sb.blocksPerGroup < 2 ^ 33 - 32768
  · exact ⟨32768, Nat.le_refl _, Or.inr (by omega)⟩
  · exact ⟨2 ^ 33 - 1 - (sb.firstDataBlock + g * sb.blocksPerGroup), by omega, Or.inr (by omega)⟩

end Fits

/-! ## Group descriptors and inodes -/

section Functions

variable (ha : sb.Accepted) (hf : Fits sb) {gd : Buf}
include ha hf

omit hf in
theorem within_gdSlot (g : Nat) : Within sb (gdSlot g) fun r => r.2 < sb.blockSize := by
  have hbs := ha.le_blockSize
  rw [gdSlot]
  refine within_bind_getSb ((within_udiv (by omega)).bind fun blk _ => ?_)
  refine (within_umod (by omega)).bind fun off hoff => within_pure ?_
  rw [hoff]
  exact Nat.mod_lt _ (by omega)

section
variable (ino g : Nat)

theorem within_readGd : Stays sb (readGd g) := by
  have hblk := hf.blk
  refine (within_gdSlot ha g).bind fun ⟨blk, off⟩ hoff => ?_
  refine (within_readBlock (by omega)).provided fun ok _ _ => ?_
  exact (within_slice (by omega)).void

theorem within_inodeSlot :
    Within sb (inodeSlot ino) fun r => ∀ blk off, r = some (blk, off) → off < sb.blockSize := by
  have hbs := ha.le_blockSize
  have hpos := ha.inodesPerGroup.1
  refine within_bind_getSb ((within_udiv hpos).bind fun grp _ => ?_)
  refine (within_umod hpos).bind fun idx _ => ?_
  refine (within_readGd ha hf grp).bind fun gd => ?_
  cases gd with
  | none => exact within_pure fun _ _ h => by cases h
  | some gd =>
    refine (within_udiv (by omega)).bind fun blk _ => ?_
    refine (within_umod (by omega)).bind fun off hoff => within_pure fun blk' off' h => ?_
    cases h
    rw [hoff]
    exact Nat.mod_lt _ (by omega)

theorem within_readInode : Stays sb (readInode ino) := by
  have hblk := hf.blk
  refine within_guard fun _ => ?_
  refine (within_inodeSlot ha hf ino).option Stays.pure fun ⟨blk, off⟩ hslot => ?_
  have hoff := hslot blk off rfl
  refine (within_readBlock (by omega)).provided fun ok _ _ => ?_
  have hn : (if sb.inodeSize < 256 then sb.inodeSize else 256) ≤ 256 := by split <;> omega
  refine within_bind_getSb ((within_slice (by omega)).bind fun bytes => ?_)
  exact (within_blit (by simpa [Scratch.size] using hn)).void

theorem within_writeInode : Stays sb (writeInode ino) := by
  have hind := hf.half (b := .ind) (by decide)
  have hsize := hf.inodeSize
  refine (within_inodeSlot ha hf ino).option Stays.pure fun ⟨blk, off⟩ hslot => ?_
  have hoff := hslot blk off rfl
  refine (within_readBlock (by omega)).provided fun ok _ _ => ?_
  refine within_bind_getSb ?_
  refine (within_slice (by simpa [Scratch.size] using hsize)).bind fun bytes => ?_
  exact (within_blit (by omega)).bind fun _ => within_writeBlock (by omega)

theorem within_writeGd (gd : Buf) : Stays sb (writeGd g gd) := by
  have hind := hf.half (b := .ind) (by decide)
  refine (within_gdSlot ha g).bind fun ⟨blk, off⟩ hoff => ?_
  refine (within_readBlock (by omega)).provided fun ok _ _ => ?_
  exact (within_blit (by omega)).bind fun _ => within_writeBlock (by omega)

end

/-! ## The block map -/

omit ha in
theorem within_tableEntry (b : Nat) {tab : Scratch} (ht : tab ≠ .inode)
    (hi : i < sb.blockSize / 4) : Stays sb (tableEntry b tab i) := by
  have htab := hf.half ht
  refine within_guard fun _ => ?_
  refine (within_readBlock (by omega)).provided fun ok _ _ => ?_
  exact (within_peek32 (by omega)).mono fun _ _ => trivial

theorem within_mapBlock (lbn : Nat) : Stays sb (mapBlock lbn) := by
  have hbs := ha.le_blockSize
  have hper : 0 < sb.blockSize / 4 := by omega
  refine within_bind_getSb ?_
  refine within_ite (fun h => ?_) fun _ => within_ite (fun h => ?_) fun _ =>
    within_ite (fun h => ?_) fun _ => within_ite (fun h => ?_) fun _ => Stays.pure
  · exact (within_peek32 (by simp only [Scratch.size]; omega)).mono fun _ _ => trivial
  · exact (within_peek32 (by decide)).bind fun ind _ =>
      within_tableEntry hf ind (by decide) h
  · refine (within_peek32 (by decide)).bind fun dind _ => ?_
    refine (within_udiv hper).bind fun ti hti => ?_
    refine (within_tableEntry hf dind (by decide)
      (hti ▸ Nat.div_lt_of_lt_mul h)).bind fun mid => ?_
    refine (within_umod hper).bind fun li hli => ?_
    exact within_tableEntry hf mid (by decide) (hli ▸ Nat.mod_lt _ hper)
  · refine (within_peek32 (by decide)).bind fun tind _ => ?_
    refine (within_udiv (Nat.mul_pos hper hper)).bind fun ai hai => ?_
    refine (within_tableEntry hf tind (by decide)
      (hai ▸ Nat.div_lt_of_lt_mul h)).bind fun dind => ?_
    refine (within_udiv hper).bind fun q _ => ?_
    refine (within_umod hper).bind fun bi hbi => ?_
    refine (within_tableEntry hf dind (by decide)
      (hbi ▸ Nat.mod_lt _ hper)).bind fun mid => ?_
    refine (within_umod hper).bind fun ci hci => ?_
    exact within_tableEntry hf mid (by decide) (hci ▸ Nat.mod_lt _ hper)

/-! ## Directories -/

omit ha in
theorem within_direntAt {off : Nat} (h : off + 8 ≤ sb.blockSize) :
    Within sb (direntAt off) fun r => r.2.2 < 256 := by
  have hblk := hf.blk
  refine (within_peek32 (by omega)).bind fun ino _ => ?_
  refine (within_peek16 (by omega)).bind fun len _ => ?_
  exact (within_peek (by omega)).bind fun nlen hn => within_pure hn

/-- The loop over the blocks of a directory stays within the buffers if its body does. -/
theorem within_eachDirBlock {size : Nat} {body : Nat → Driver (Option α)}
    (hbody : ∀ pb, Stays sb (body pb)) (fuel : Nat) : ∀ lbn,
    Stays sb (eachDirBlock size body fuel lbn) := by
  have hblk := hf.blk
  induction fuel with
  | zero => exact fun lbn => within_stop (by decide)
  | succ fuel ih =>
    intro lbn
    refine within_loop fun _ => ?_
    refine (within_mapBlock ha hf lbn).bind fun pb => within_ite (fun _ => ih _) fun _ => ?_
    refine (within_readBlock (by omega)).bind fun ok => within_ite (fun _ => ?_) fun _ => ih _
    exact (hbody pb).option (ih _) fun r _ => Stays.pure

omit ha in
theorem within_lookupScan (name : CString) (fuel : Nat) : ∀ off,
    Stays sb (lookupScan name fuel off) := by
  have hblk := hf.blk
  induction fuel with
  | zero => exact fun off => within_stop (by decide)
  | succ fuel ih =>
    intro off
    refine within_loop fun h => ?_
    refine (within_direntAt hf h).bind fun ⟨ino, len, nlen⟩ _ => ?_
    refine within_guard fun _ => within_guard fun hend => ?_
    refine Stays.bind ?_ fun found => ?_
    · exact within_guard fun _ =>
        within_nameMatches name _ _ 0 (by simp only [not_or, Nat.not_lt] at hend; omega)
    · exact within_guard fun _ => ih _

theorem within_dirLookup (name : CString) : Stays sb (dirLookup name) := by
  refine within_inodeBytes.bind fun size _ => within_bind_getSb ?_
  exact (within_eachDirBlock ha hf (fun _ => within_lookupScan hf name _ 0) _ 0).option
    Stays.pure fun _ _ => Stays.pure

omit ha in
theorem within_emptyScan (fuel : Nat) : ∀ off, Stays sb (emptyScan fuel off) := by
  have hblk := hf.blk
  induction fuel with
  | zero => exact fun off => within_stop (by decide)
  | succ fuel ih =>
    intro off
    refine within_loop fun h => ?_
    refine (within_direntAt hf h).bind fun ⟨ino, len, nlen⟩ _ => ?_
    refine within_guard fun _ => within_guard fun hend => ?_
    refine Stays.bind ?_ fun dots => ?_
    · exact within_guard fun _ =>
        within_isDots (by simp only [not_or, Nat.not_lt] at hend; omega)
    · exact within_ite (fun _ => ih _) fun _ => Stays.pure

theorem within_dirIsEmpty : Stays sb dirIsEmpty := by
  refine within_inodeBytes.bind fun size _ => within_bind_getSb ?_
  exact (within_eachDirBlock ha hf (fun _ => within_emptyScan hf _ 0) _ 0).bind
    fun _ => Stays.pure

/-! ## Paths and listings -/

theorem within_inodeReadSymlink (cap : Nat) :
    Stays sb (inodeReadSymlink cap) := by
  have hblk := hf.blk
  refine within_inodeIsSymlink.unless fun link _ _ => ?_
  refine within_inodeBytes.unless fun size _ _ => within_ite (fun h => ?_) fun _ => ?_
  · exact (within_slice (by simp only [Scratch.size]; omega)).void
  · refine (within_mapBlock ha hf 0).unless fun pb _ _ => ?_
    refine (within_readBlock (by omega)).provided fun ok _ _ => ?_
    have hlim : (if size < sb.blockSize then size else sb.blockSize) ≤ sb.blockSize := by
      split <;> omega
    refine within_bind_getSb (within_ite (fun _ => within_stop (by decide)) fun _ => ?_)
    exact (within_slice (by omega)).void

theorem within_walkPath {again : Nat → CString → Driver Nat} {nofollowLast : Bool}
    (hagain : ∀ restart newp, Stays sb (again restart newp)) (fuel : Nat) :
    ∀ parent p, Stays sb (walkPath again nofollowLast fuel parent p) := by
  induction fuel with
  | zero =>
    intro parent p
    cases p with
    | nil => exact Stays.pure
    | cons c p => exact within_stop (by decide)
  | succ fuel ih =>
    intro parent p
    cases p with
    | nil => exact Stays.pure
    | cons c p =>
      refine within_inodeIsDir.unless fun _ _ _ => ?_
      refine (within_dirLookup ha hf _).unless fun next _ _ => ?_
      refine (within_readInode ha hf next).unless fun ok _ _ => ?_
      refine within_inodeIsSymlink.bind fun link => within_ite (fun _ => ?_) fun _ => ih _ _
      exact (within_inodeReadSymlink ha hf _).option Stays.pure fun target _ => hagain _ _

theorem within_resolveFrom (levels : Nat) : ∀ start path nofollowLast,
    Stays sb (resolveFrom levels start path nofollowLast) := by
  induction levels with
  | zero => exact fun _ _ _ => Stays.pure
  | succ levels ih =>
    intro start path nofollowLast
    refine (within_readInode ha hf start).unless fun ok _ _ => ?_
    refine (within_readInode ha hf _).unless fun ok _ _ => ?_
    exact within_walkPath ha hf (fun _ _ => ih _ _ _) _ _ _

theorem within_resolveShortcut (path : CString) :
    Stays sb (resolveShortcut path) := by
  rw [resolveShortcut]
  cases lastSlash path with
  | none => exact Stays.pure
  | some pos =>
    refine within_guard fun _ => ?_
    refine within_getMem.unless fun m _ _ => ?_
    refine (within_readInode ha hf _).unless fun ok _ _ => ?_
    refine within_inodeIsDir.unless fun _ _ _ => ?_
    refine (within_dirLookup ha hf _).unless fun lino _ _ => ?_
    refine (within_readInode ha hf lino).unless fun ok _ _ => ?_
    refine within_inodeIsSymlink.unless fun link _ _ => ?_
    exact (within_modifyMem fun m => dentryPut_sb m path lino).void

theorem within_resolve (path : CString) : Stays sb (resolve path) := by
  refine within_getMem.bind fun m _ => ?_
  refine Stays.bind ?_ fun ok => ?_
  · exact within_guard fun _ => within_readInode ha hf _
  · refine within_guard fun _ => ?_
    refine (within_resolveShortcut ha hf path).option ?_ fun lino _ => Stays.pure
    refine (within_resolveFrom ha hf 9 2 path false).bind fun ino => ?_
    exact (within_when fun _ => within_modifyMem fun m => dentryPut_sb m path ino).void

omit ha in
/-- Here a name may end behind its block, but not behind the buffer. -/
theorem within_listScan (max fuel : Nat) : ∀ off acc,
    Stays sb (listScan max fuel off acc) := by
  have hblk := hf.blk
  induction fuel with
  | zero => exact fun off acc => within_stop (by decide)
  | succ fuel ih =>
    intro off acc
    refine within_loop fun h => ?_
    refine (within_direntAt hf h.1).bind fun ⟨ino, len, nlen⟩ hn => ?_
    refine within_guard fun _ => within_ite (fun _ => ?_) fun _ => ih _ _
    exact (within_slice (by simp only at hn; omega)).bind fun bytes => ih _ _

theorem within_listBlocks (size max fuel : Nat) : ∀ lbn acc,
    Stays sb (listBlocks size max fuel lbn acc) := by
  have hblk := hf.blk
  induction fuel with
  | zero => exact fun lbn acc => within_stop (by decide)
  | succ fuel ih =>
    intro lbn acc
    refine within_loop fun _ => ?_
    refine (within_mapBlock ha hf lbn).bind fun pb => within_ite (fun _ => ih _ _) fun _ => ?_
    refine (within_readBlock (by omega)).bind fun ok =>
      within_ite (fun _ => ?_) fun _ => ih _ _
    exact (within_listScan hf max _ 0 acc).bind fun acc => ih _ _

theorem within_listEntry (name : List UInt8) (ino : Nat) :
    Stays sb (listEntry name ino) := by
  refine (within_readInode ha hf ino).provided fun ok _ _ => ?_
  refine within_inodeIsDir.bind fun _ => within_inodeBytes.bind fun _ _ => ?_
  refine (within_peek16 (by decide)).bind fun uid _ => ?_
  refine (within_peek16 (by decide)).bind fun gid _ => ?_
  refine (within_peek16 (by decide)).bind fun mode _ => ?_
  refine (within_peek32 (by decide)).bind fun atime _ => ?_
  refine (within_peek32 (by decide)).bind fun ctime _ => ?_
  exact (within_peek32 (by decide)).bind fun mtime _ => Stays.pure

theorem within_listEntries (names : List (List UInt8 × Nat)) :
    Stays sb (listEntries names) := by
  induction names with
  | nil => exact Stays.pure
  | cons e names ih =>
    exact (within_listEntry ha hf e.1 e.2).bind fun _ =>
      ih.bind fun _ => Stays.pure

theorem within_ext2ListDir (path : CString) (max : Nat) :
    Stays sb (ext2ListDir path max) := by
  refine within_bind_getSb (within_guard fun _ => ?_)
  refine Stays.bind ?_ fun ok => ?_
  · refine within_ite (fun _ => within_readInode ha hf 2) fun _ => ?_
    exact (within_resolve ha hf path).void
  · refine within_guard fun _ => ?_
    refine within_inodeIsDir.unless fun _ _ _ => ?_
    refine within_inodeBytes.bind fun size _ => ?_
    exact (within_listBlocks ha hf size max _ 0 []).bind fun names =>
      within_listEntries ha hf names

/-! ## The allocators -/

/-- The scan of a bitmap that is left at bit `last` stays below it. -/
theorem within_allocScan {g bbmp : Nat} {last : Nat} (hlast : LeftAt sb g last) (n : Nat) :
    ∀ i, i + n = sb.blocksPerGroup → i ≤ last →
      Stays sb (allocScan g bbmp gd n i) := by
  have hbmp := hf.bmp
  induction n with
  | zero => exact fun i _ _ => Stays.pure
  | succ n ih =>
    intro i hi hle
    refine within_bind_getSb (within_guard fun hbno => ?_)
    have hlt : i < last := by
      rcases hlast.2 with h | h <;> omega
    have hbit : i < 32768 := Nat.lt_of_lt_of_le hlt hlast.1
    refine (within_bmpTest hbit).bind fun _ =>
      within_ite (fun _ => ih (i + 1) (by omega) hlt) fun _ => ?_
    refine (within_bmpSet hbit).bind fun _ => ?_
    refine (within_writeBlock (by omega)).provided fun _ _ _ => ?_
    refine (within_writeGd ha hf g _).bind fun _ => ?_
    refine (within_sbAdjust _ _).bind fun _ => ?_
    refine (within_blit (by omega)).bind fun _ => ?_
    refine (within_writeBlock (by omega)).bind fun _ => ?_
    exact Within.bind (within_modifyMem fun _ => rfl) fun _ _ => Stays.pure

theorem within_allocGroups (n : Nat) : ∀ s, s + n = sb.groupCount →
    Stays sb (allocGroups n s) := by
  have hbmp := hf.bmp
  induction n with
  | zero => exact fun s _ => Stays.pure
  | succ n ih =>
    intro s hs
    refine within_getMem.bind fun m hm => ?_
    rw [hm]
    refine (within_umod (by omega)).bind fun g hg => ?_
    have hlt : g < sb.groupCount := hg ▸ Nat.mod_lt _ (by omega)
    refine (within_readGd ha hf g).option Stays.pure fun gd _ => ?_
    refine within_ite (fun _ => ih (s + 1) (by omega)) fun _ => ?_
    refine (within_readBlock (by omega)).provided fun _ _ _ => ?_
    obtain ⟨last, hlast⟩ := hf.leftAt ha hlt
    exact (within_allocScan ha hf hlast _ 0 (by omega) (by omega)).option (ih (s + 1) (by omega))
      fun bno _ => Stays.pure

theorem within_allocBlock : Stays sb allocBlock :=
  within_bind_getSb (within_allocGroups ha hf _ 0 (by omega))

/-- The bit is cleared and the counters are adjusted. -/
theorem within_giveBack (hbit : i < 32768) (g : Nat) {bmp dblocks dinodes : Nat} :
    Stays sb (do
      if ← readBlock bmp .bmp then
        if ← bmpTest i then
          bmpClear i
          let _ ← writeBlock bmp .bmp
          let _ ← writeGd g gd
          sbAdjust dblocks dinodes) := by
  have hbmp := hf.bmp
  refine (within_readBlock (by omega)).provided fun _ _ _ => ?_
  refine (within_bmpTest hbit).provided fun _ _ _ => ?_
  refine (within_bmpClear hbit).bind fun _ => ?_
  refine (within_writeBlock (by omega)).bind fun _ => ?_
  exact (within_writeGd ha hf g _).bind fun _ => within_sbAdjust _ _

theorem within_freeBlock {bno : Nat} (hb : bno < 2 ^ 32) : Stays sb (freeBlock bno) := by
  have hpos := ha.blocksPerGroup.1
  refine within_bind_getSb (within_guard fun hge => ?_)
  refine (within_udiv hpos).bind fun g _ => (within_umod hpos).bind fun i hi => ?_
  have hbit : i < 32768 := by
    have h1 := Nat.mod_lt (bno - sb.firstDataBlock) hpos
    have h2 := Nat.mod_le (bno - sb.firstDataBlock) sb.blocksPerGroup
    rcases hf.blocksPerGroup with h | h <;> omega
  refine (within_readGd ha hf g).option Stays.pure fun gd _ => ?_
  exact within_giveBack ha hf hbit g

theorem within_allocInodeScan {g ibmp : Nat} {isDir : Bool} (n : Nat) : ∀ i,
    i + n = sb.inodesPerGroup → Stays sb (allocInodeScan g ibmp gd isDir n i) := by
  have hbmp := hf.bmp
  have hmax := hf.inodesPerGroup
  induction n with
  | zero => exact fun i _ => Stays.pure
  | succ n ih =>
    intro i hi
    have hbit : i < 32768 := by omega
    refine (within_bmpTest hbit).bind fun _ =>
      within_ite (fun _ => ih (i + 1) (by omega)) fun _ => ?_
    refine (within_bmpSet hbit).bind fun _ => ?_
    refine (within_writeBlock (by omega)).provided fun _ _ _ => ?_
    refine (within_writeGd ha hf g _).bind fun _ => ?_
    refine (within_sbAdjust _ _).bind fun _ => ?_
    exact within_bind_getSb (Stays.pure)

theorem within_allocInodeGroups (isDir : Bool) (n : Nat) : ∀ g,
    Stays sb (allocInodeGroups isDir n g) := by
  have hbmp := hf.bmp
  induction n with
  | zero => exact fun g => Stays.pure
  | succ n ih =>
    intro g
    refine (within_readGd ha hf g).option Stays.pure fun gd _ => ?_
    refine within_ite (fun _ => ih (g + 1)) fun _ => ?_
    refine (within_readBlock (by omega)).provided fun _ _ _ => within_bind_getSb ?_
    exact (within_allocInodeScan ha hf _ 0 (by omega)).option (ih (g + 1)) fun ino _ => Stays.pure

theorem within_allocInode (isDir : Bool) : Stays sb (allocInode isDir) :=
  within_bind_getSb (within_allocInodeGroups ha hf isDir _ 0)

theorem within_freeInode (ino : Nat) (wasDir : Bool) :
    Stays sb (freeInode ino wasDir) := by
  have hpos := ha.inodesPerGroup.1
  have hmax := hf.inodesPerGroup
  refine within_bind_getSb ?_
  refine (within_udiv hpos).bind fun g _ => (within_umod hpos).bind fun i hi => ?_
  have hbit : i < 32768 := by
    rw [hi]
    exact Nat.lt_of_lt_of_le (Nat.mod_lt _ hpos) hmax
  refine (within_readGd ha hf g).option Stays.pure fun gd _ => ?_
  exact within_giveBack ha hf hbit g

/-! ## Editing directories -/

omit ha in
/-- A record can be put behind its block, but not behind the buffer. -/
theorem within_addScan (hname : name.length ≤ 255) (ino type pb fuel : Nat) :
    ∀ off, Stays sb (addScan name ino type pb fuel off) := by
  have hblk := hf.blk
  induction fuel with
  | zero => exact fun off => within_stop (by decide)
  | succ fuel ih =>
    intro off
    refine within_loop fun h => ?_
    refine (within_direntAt hf h).bind fun ⟨eIno, len, en⟩ hen => ?_
    refine within_guard fun _ => ?_
    simp only at hen ⊢
    refine within_ite (fun _ => ?_) fun _ => ih _
    have hused : (if eIno = 0 then 0 else roundup4 (8 + en)) ≤ 264 := by
      rw [roundup4]
      split <;> omega
    refine Stays.bind ?_ fun _ =>
      (within_writeBlock (by omega)).void
    exact within_ite (fun _ => within_putDirent (by omega)) fun _ =>
      (within_poke16 (by omega)).bind fun _ => within_putDirent (by omega)

theorem within_addDirent (dirIno : Nat) (hname : name.length ≤ 255)
    (ino type : Nat) : Stays sb (addDirent dirIno name ino type) := by
  have hblk := hf.blk
  have hbs := ha.le_blockSize
  refine (within_readInode ha hf dirIno).unless fun _ _ _ => ?_
  refine within_bind_getSb (within_inodeBytes.bind fun dsize _ => ?_)
  refine (within_eachDirBlock ha hf
    (fun pb => within_addScan hf hname ino type pb _ 0) _ 0).bind fun r => ?_
  cases r with
  | some r => exact Stays.pure
  | none =>
    refine (within_allocBlock ha hf).unless fun nb _ _ => ?_
    refine (within_blit (by omega)).bind fun _ => ?_
    refine (within_putDirent (by omega)).bind fun _ => ?_
    refine (within_writeBlock (by omega)).unless fun _ _ _ => ?_
    refine (within_readInode ha hf dirIno).unless fun _ _ _ => ?_
    refine (within_udiv (by omega)).unless fun lbn _ hlbn => ?_
    refine (within_poke32 (by simp only [Scratch.size]; omega)).bind fun _ => ?_
    refine (within_poke32 (by decide)).bind fun _ => ?_
    refine (within_peek32 (by decide)).bind fun _ _ => ?_
    exact (within_poke32 (by decide)).bind fun _ => within_writeInode ha hf dirIno

omit ha in
theorem within_removeScan {leaf : CString} (pb fuel : Nat) : ∀ off prev,
    (∀ q, prev = some q → q + 8 ≤ sb.blockSize) →
      Stays sb (removeScan leaf pb fuel off prev) := by
  have hblk := hf.blk
  induction fuel with
  | zero => exact fun off prev _ => within_stop (by decide)
  | succ fuel ih =>
    intro off prev hprev
    refine within_loop fun h => ?_
    refine (within_direntAt hf h).bind fun ⟨eIno, len, en⟩ hen => ?_
    refine within_guard fun _ => ?_
    simp only at hen ⊢
    refine Stays.bind ?_ fun found => ?_
    · exact within_ite (fun _ => within_nameMatches leaf _ _ 0 (by omega)) fun _ =>
        Stays.pure
    refine within_ite (fun _ => ?_) fun _ => ih _ _ fun q hq => by cases hq; exact h
    refine Stays.bind ?_ fun _ =>
      (within_writeBlock (by omega)).void
    cases prev with
    | none => exact within_poke32 (by omega)
    | some q =>
      have hq := hprev q rfl
      exact (within_peek16 (by omega)).bind fun _ _ => within_poke16 (by omega)

theorem within_removeDirent (dirIno : Nat) (leaf : CString) :
    Stays sb (removeDirent dirIno leaf) := by
  refine (within_readInode ha hf dirIno).unless fun _ _ _ => ?_
  refine within_bind_getSb (within_inodeBytes.bind fun dsize _ => ?_)
  exact (within_eachDirBlock ha hf
    (fun pb => within_removeScan hf pb _ 0 none fun _ h => by cases h) _ 0).void

end Functions

end IndexOS.Ext2
