import IndexOS.Ext2.Bounds

/-!
# Which superblocks the mount may accept

`ext2_mount` checks the magic number, the block size and that groups are not empty.  With some of
the superblocks that pass, the contents of the disk can lead the driver outside its buffers.  Here
they are told apart:

* `Access` — the functions in question, with their arguments;
* `Safe` — with this superblock on the disk no call of them leaves a buffer or divides by zero, in
  any state of the driver and whatever the rest of the disk holds;
* `mount_check` — an accepted superblock is safe exactly if it `Fits`.

That `Fits` is needed is shown by disks on which a function faults.  They are only read before the
fault, so it is enough to follow the functions on a disk at rest (`still`), one that carries the
superblock and otherwise repeats the same block over and over (`patterned`).
-/

set_option autoImplicit false

namespace IndexOS.Ext2

open Interaction LittleEndian Prog
open Testament (CString cstr slash)

/-! ## Safe superblocks -/

/-- A call of one of the functions that index the buffers. -/
inductive Access
  | readGd (g : Nat)
  | readInode (ino : Nat)
  | writeInode (ino : Nat)
  | mapBlock (lbn : Nat)
  | dirLookup (name : CString)
  | dirIsEmpty
  | listDir (path : CString) (max : Nat)
  | addDirent (dirIno : Nat) (name : CString) (ino type : Nat)
  | removeDirent (dirIno : Nat) (leaf : CString)
  | allocBlock
  | freeBlock (bno : Nat)
  | allocInode (isDir : Bool)
  | freeInode (ino : Nat) (wasDir : Bool)

/-- The call as a program. -/
def Access.prog : Access → Driver Unit
  | .readGd g => do let _ ← Ext2.readGd g
  | .readInode ino => do let _ ← Ext2.readInode ino
  | .writeInode ino => do let _ ← Ext2.writeInode ino
  | .mapBlock lbn => do let _ ← Ext2.mapBlock lbn
  | .dirLookup name => do let _ ← Ext2.dirLookup name
  | .dirIsEmpty => do let _ ← Ext2.dirIsEmpty
  | .listDir path max => do let _ ← ext2ListDir path max
  | .addDirent dirIno name ino type => do let _ ← Ext2.addDirent dirIno name ino type
  | .removeDirent dirIno leaf => do let _ ← Ext2.removeDirent dirIno leaf
  | .allocBlock => do let _ ← Ext2.allocBlock
  | .freeBlock bno => Ext2.freeBlock bno
  | .allocInode isDir => do let _ ← Ext2.allocInode isDir
  | .freeInode ino wasDir => Ext2.freeInode ino wasDir

/-- Numbers are 32-bit numbers, and the names of directory entries fit the arrays their callers keep
them in. -/
def Access.Valid : Access → Prop
  | .readGd g => g < 2 ^ 32
  | .readInode ino => ino < 2 ^ 32
  | .writeInode ino => ino < 2 ^ 32
  | .mapBlock lbn => lbn < 2 ^ 32
  | .dirLookup name => name.length ≤ 255
  | .dirIsEmpty => True
  | .listDir _ max => max < 2 ^ 32
  | .addDirent dirIno name ino type =>
    dirIno < 2 ^ 32 ∧ name.length ≤ 255 ∧ ino < 2 ^ 32 ∧ type < 256
  | .removeDirent dirIno leaf => dirIno < 2 ^ 32 ∧ leaf.length ≤ 255
  | .allocBlock => True
  | .freeBlock bno => bno < 2 ^ 32
  | .allocInode _ => True
  | .freeInode ino _ => ino < 2 ^ 32

/-- With `sb` mounted from a disk with the superblock `bytes`, no call leaves a buffer or divides by
zero. -/
def Safe (bytes : Buf) (sb : Super) : Prop :=
  ∀ w : World, w.mem.sb = sb → (∀ i < 1024, w.disk (1024 + i) = bytes i) →
    ∀ a : Access, a.Valid → w.run a.prog ≠ .stop .fault

variable {sb : Super} {bytes disk : Buf} {m : Mem}

/-- With a superblock that fits, every call stays within the buffers. -/
theorem Fits.within (ha : sb.Accepted) (hf : Fits sb) (a : Access) (hv : a.Valid) :
    Stays sb a.prog := by
  cases a with
  | readGd g => exact (within_readGd ha hf g).void
  | readInode ino => exact (within_readInode ha hf ino).void
  | writeInode ino => exact (within_writeInode ha hf ino).void
  | mapBlock lbn => exact (within_mapBlock ha hf lbn).void
  | dirLookup name => exact (within_dirLookup ha hf name).void
  | dirIsEmpty => exact (within_dirIsEmpty ha hf).void
  | listDir path max => exact (within_ext2ListDir ha hf path max).void
  | addDirent dirIno name ino type => exact (within_addDirent ha hf dirIno hv.2.1 ino type).void
  | removeDirent dirIno leaf => exact (within_removeDirent ha hf dirIno leaf).void
  | allocBlock => exact (within_allocBlock ha hf).void
  | freeBlock bno => exact within_freeBlock ha hf hv
  | allocInode isDir => exact (within_allocInode ha hf isDir).void
  | freeInode ino wasDir => exact within_freeInode ha hf ino wasDir

theorem Fits.safe (ha : sb.Accepted) (hf : Fits sb) : Safe bytes sb :=
  fun _ hw _ a hv => run_ne_fault (hf.within ha a hv) hw

/-! ## A disk at rest -/

/-- The commands on a disk that is only read. -/
def still : Handler Cmd Cmd.Ans Stop Bare
  | .readBlock b dst, s =>
    if fitsBuffer s.mem.sb dst then
      if b < 2 ^ 32 then
        .done true { s with mem := s.mem.load dst (blockOf s.disk s.mem.sb.blockSize b) }
      else .stop .unserved
    else .stop .fault
  | .writeBlock _ _, _ => .stop .unserved
  | .readSector _, _ => .stop .unserved
  | .writeSector _ _, _ => .stop .unserved
  | .get, s => .done s.mem s
  | .set m, s => if m.sb = s.mem.sb then .done () { s with mem := m } else .stop .unserved
  | .stop why, _ => .stop why

theorem plain_still : Plain still := ⟨fun _ => rfl, fun _ _ hm => if_pos hm, fun _ _ => rfl⟩

/-- A world whose disk is at rest and whose cache is in order. -/
structure Rests (w : World) (s : Bare) : Prop where
  mem : w.mem = s.mem
  disk : w.disk = s.disk
  sb : w.mem.sb.Accepted
  seamless : Seamless w.mem.sb.blockSize w.disk
  ok : World.Ok (fun _ => False) w
  whole : ∀ i, (w.line i).torn = false
  io : ∀ k, w.io k = .ok

/-- On a disk that wraps around as the read-ahead does, the cache does not matter. -/
theorem still_follows (c : Cmd) (w : World) (s : Bare) (h : Rests w s) :
    Follows Rests (· ≠ .unserved) (World.handle c w) (still c s) := by
  obtain ⟨mem, disk⟩ := s
  obtain rfl : w.mem = mem := h.mem
  obtain rfl : w.disk = disk := h.disk
  cases c with
  | readBlock b dst =>
    simp only [World.handle, still]
    split
    · split
      · rename_i hb
        obtain ⟨hok, hwhole, hio⟩ := readBlock_good h.io h.whole b dst
        have hspec := readBlock_spec h.sb h.ok hb dst
        obtain ⟨data, hmem, hdata⟩ := hspec.mem
        have heq : copyInto (w.mem.buf dst) 0 data 0 w.mem.sb.blockSize =
            copyInto (w.mem.buf dst) 0 (blockOf w.disk w.mem.sb.blockSize b) 0
              w.mem.sb.blockSize :=
          copyInto_front fun k hk => hdata hok (fun _ => h.whole _) k hk not_false
        refine ⟨(w.readBlock b dst).2, by rw [hok], by rw [hmem, heq, Mem.load], hspec.disk, ?_, ?_,
          hspec.ok (Or.inr (Or.inr (Or.inr h.seamless))), hwhole, hio⟩
        · rw [hspec.sb]; exact h.sb
        · rw [hspec.sb, hspec.disk]; exact h.seamless
      · exact fun hne => absurd rfl hne
    · exact fun _ => rfl
  | writeBlock | readSector | writeSector => exact fun hne => absurd rfl hne
  | get => exact ⟨w, rfl, h⟩
  | set m =>
    simp only [still]
    split
    · rename_i hsb
      refine ⟨_, rfl, rfl, rfl, ?_, ?_, ?_, h.whole, h.io⟩
      · rw [hsb]; exact h.sb
      · rw [hsb]; exact h.seamless
      · change LinesOk _ m.sb.blockSize w.line w.disk
        rw [hsb]
        exact h.ok
    · exact fun hne => absurd rfl hne
  | stop why => exact fun _ => rfl

variable {s : Bare}

/-- A fault on a disk at rest makes the superblock unsafe. -/
theorem not_safe_of_still (ha : s.mem.sb.Accepted) (hseam : Seamless s.mem.sb.blockSize s.disk)
    (hsb : ∀ i < 1024, s.disk (1024 + i) = bytes i) {a : Access} (hv : a.Valid)
    (hrun : a.prog.run still s = .stop .fault) : ¬ Safe bytes s.mem.sb := by
  intro hsafe
  let w : World := { freshWorld s.mem.sb s.disk with mem := s.mem }
  have hrest : Rests w s :=
    ⟨rfl, rfl, ha, hseam, Fresh.ok ⟨ha, fun _ => rfl, rfl⟩, fun _ => rfl, fun _ => rfl⟩
  have hfollow := run_sim still_follows a.prog hrest
  rw [hrun] at hfollow
  exact hsafe w rfl hsb a hv (hfollow (by decide))

theorem load_of_ne {m : Mem} {b dst : Scratch} (h : b ≠ dst) (data : Buf) :
    (m.load dst data).buf b = m.buf b :=
  Mem.setBuf_of_ne m _ h

theorem load_apply {m : Mem} {dst : Scratch} {data : Buf} {k : Nat} (h : k < m.sb.blockSize) :
    (m.load dst data).buf dst k = data k := by
  rw [Mem.load, Mem.setBuf_self, copyInto_zero h]

theorem Super.Accepted.fits (ha : sb.Accepted) {b : Scratch} (hb : b ≠ .inode) :
    sb.blockSize ≤ b.size := by
  rcases ha.blockSize with h | h | h <;> simp_all [Scratch.size, kMaxBlock]

theorem still_readBlock {b : Nat} {dst : Scratch} (hfit : s.mem.sb.blockSize ≤ dst.size)
    (hb : b < 2 ^ 32) : (readBlock b dst).run still s =
      .done true { s with mem := s.mem.load dst (blockOf s.disk s.mem.sb.blockSize b) } := by
  have hfit : fitsBuffer s.mem.sb dst = true := decide_eq_true hfit
  refine (run_command (Cmd.readBlock b dst) s).trans ?_
  simp only [still, hfit, if_pos hb]
  rfl

/-- From `s` to `t` nothing has changed but `g_blk`. -/
structure BlkOnly (s t : Bare) : Prop where
  sb : t.mem.sb = s.mem.sb
  disk : t.disk = s.disk
  buf : ∀ b, b ≠ .blk → t.mem.buf b = s.mem.buf b

/-- The address of the descriptor of group `g`. -/
def gdByte (sb : Super) (g : Nat) : Nat := sb.gdBlock * sb.blockSize + g * 32 % 2 ^ 32

section
variable (ha : s.mem.sb.Accepted)
include ha

theorem still_readGd (g : Nat) :
    Returns still (readGd g) s fun r t => BlkOnly s t ∧ ∃ gd, r = some gd ∧
      ∀ k < 32, gd k = s.disk
        (gdByte s.mem.sb g / s.mem.sb.blockSize % 2 ^ 32 * s.mem.sb.blockSize +
        (gdByte s.mem.sb g % s.mem.sb.blockSize + k)) := by
  have hfit := ha.fits (b := .blk) (by decide)
  -- descriptors do not cross the end of a block
  have hoff : gdByte s.mem.sb g % s.mem.sb.blockSize + 32 ≤ s.mem.sb.blockSize := by
    rw [gdByte]
    rcases ha.blockSize with h | h | h <;> rw [h] <;> omega
  have hslot : (gdSlot g).run still s = .done (gdByte s.mem.sb g / s.mem.sb.blockSize % 2 ^ 32,
      gdByte s.mem.sb g % s.mem.sb.blockSize) s := by
    rw [gdSlot, run_bind_done (run_getSb plain_still), run_bind_done (run_udiv (by omega)),
      run_bind_done (run_umod (by omega))]
    rfl
  refine returns_step hslot (returns_step (still_readBlock hfit (Nat.mod_lt _ (by omega))) ?_)
  refine returns_step (run_slice plain_still (by omega) (Nat.le_trans hoff hfit)) ?_
  refine returns_pure ⟨⟨rfl, rfl, fun b hb => load_of_ne hb _⟩, _, rfl, fun k hk => ?_⟩
  exact load_apply (Nat.lt_of_lt_of_le (Nat.add_lt_add_left hk _) hoff)

/-- Inode 1 is at the start of a block, whatever the descriptor says. -/
theorem still_inodeSlot :
    Returns still (inodeSlot 1) s fun r t => BlkOnly s t ∧ ∃ blk < 2 ^ 32, r = some (blk, 0) := by
  have hbs := ha.le_blockSize
  have hpos := ha.inodesPerGroup.1
  refine returns_step (run_getSb plain_still) (returns_step (run_udiv hpos)
    (returns_step (run_umod hpos) (returns_bind (still_readGd ha _) ?_)))
  rintro _ t ⟨ht, gd, rfl, -⟩
  refine returns_step (run_udiv (by omega)) (returns_step (run_umod (by omega)) (returns_pure ?_))
  rw [show (1 + 2 ^ 32 - 1) % 2 ^ 32 % s.mem.sb.inodesPerGroup = 0 from Nat.zero_mod _,
    Nat.zero_mul, Nat.add_zero, Nat.mul_mod_left]
  exact ⟨ht, _, Nat.mod_lt _ (by omega), rfl⟩

/-! ## Faults that do not depend on the disk -/

/-- `write_inode` takes more bytes from `g_inode` than there are. -/
theorem still_writeInode_fault (hbig : 256 < s.mem.sb.inodeSize) :
    (writeInode 1).run still s = .stop .fault := by
  refine stops_bind (still_inodeSlot ha) ?_
  rintro _ t ⟨ht, blk, hblk, rfl⟩
  rw [← ht.sb] at ha hbig
  refine stops_step (still_readBlock (ha.fits (by decide)) hblk) ?_
  refine stops_step (run_getSb plain_still) (run_bind_stop ?_)
  change (slice .inode 0 t.mem.sb.inodeSize).run still _ = _
  rw [slice, if_neg (by omega)]
  exact run_bind_stop (run_checkRange_fault plain_still (by rw [Nat.zero_add]; exact hbig))

/-- `free_inode` tests a bit behind `g_bmp`. -/
theorem still_freeInode_fault (hbig : 32768 < s.mem.sb.inodesPerGroup) :
    (freeInode 32769 false).run still s = .stop .fault := by
  have hpos := ha.inodesPerGroup.1
  rw [freeInode, run_bind_done (run_getSb plain_still), run_bind_done (run_udiv hpos),
    run_bind_done (run_umod hpos)]
  refine stops_bind (still_readGd ha _) ?_
  rintro _ t ⟨ht, gd, rfl, -⟩
  refine stops_step (still_readBlock (by rw [ht.sb]; exact ha.fits (by decide)) (rd32_lt ..)) ?_
  have hbit : (32769 + 2 ^ 32 - 1) % 2 ^ 32 % s.mem.sb.inodesPerGroup = 32768 :=
    Nat.mod_eq_of_lt hbig
  rw [hbit]
  exact run_bind_stop (run_bind_stop (run_peek_fault plain_still (by decide)))

/-- `free_block` tests a bit behind `g_bmp`. -/
theorem still_freeBlock_fault (hbig : 32768 < s.mem.sb.blocksPerGroup) :
    (freeBlock (s.mem.sb.firstDataBlock + 32768)).run still s = .stop .fault := by
  have hpos := ha.blocksPerGroup.1
  rw [freeBlock, run_bind_done (run_getSb plain_still), if_neg (by omega), Nat.add_sub_cancel_left,
    run_bind_done (run_udiv hpos), run_bind_done (run_umod hpos), Nat.mod_eq_of_lt hbig]
  refine stops_bind (still_readGd ha _) ?_
  rintro _ t ⟨ht, gd, rfl, -⟩
  refine stops_step (still_readBlock (by rw [ht.sb]; exact ha.fits (by decide)) (rd32_lt ..)) ?_
  exact run_bind_stop (run_bind_stop (run_peek_fault plain_still (by decide)))

end

/-! ## Disks made of one block -/

/-- A disk with the superblock `bytes` on which everything else repeats the block `p`; it starts
again after 2 ^ 32 blocks. -/
def patterned (bytes : Buf) (bs : Nat) (p : Buf) : Buf := fun a =>
  let r := a % (2 ^ 32 * bs)
  if 1024 ≤ r ∧ r < 2048 then bytes (r - 1024) else p (r % bs)

theorem seamless_patterned (bytes p : Buf) (bs : Nat) : Seamless bs (patterned bytes bs p) := by
  intro b k
  have h : (b * bs + k) % (2 ^ 32 * bs) = (b % 2 ^ 32 * bs + k) % (2 ^ 32 * bs) := by
    nth_rewrite 1 [← Nat.div_add_mod b (2 ^ 32)]
    rw [Nat.add_mul, Nat.add_assoc, Nat.mul_right_comm, Nat.mul_add_mod]
  rw [patterned, patterned, h]

theorem patterned_super {bs : Nat} (hbs : 1024 ≤ bs) (p : Buf) {i : Nat} (hi : i < 1024) :
    patterned bytes bs p (1024 + i) = bytes i := by
  have h : (1024 + i) % (2 ^ 32 * bs) = 1024 + i := Nat.mod_eq_of_lt (by omega)
  simp only [patterned, h]
  rw [if_pos (by omega), Nat.add_sub_cancel_left]

theorem patterned_apply {bs b k : Nat} (hb : b < 2 ^ 32) (hk : k < bs) (p : Buf)
    (h : b * bs + k < 1024 ∨ 2048 ≤ b * bs + k) : patterned bytes bs p (b * bs + k) = p k := by
  have hlt : b * bs + k < 2 ^ 32 * bs := by
    have := Nat.mul_le_mul_right bs (Nat.succ_le_of_lt hb)
    rw [Nat.succ_mul] at this
    omega
  have hr : (b * bs + k) % (2 ^ 32 * bs) = b * bs + k := Nat.mod_eq_of_lt hlt
  simp only [patterned, hr]
  rw [if_neg (by omega), Nat.add_comm, Nat.add_mul_mod_self_right, Nat.mod_eq_of_lt hk]

/-- The driver with `p` in all its buffers, and the disk made of it. -/
def patternedState (bytes : Buf) (sb : Super) (p : Buf) : Bare where
  mem := { sb := sb, buf := fun _ => p, dentry :=
    fun _ => {}, dentryClock := 0, allocHint := 1, now := 0 }
  disk := patterned bytes sb.blockSize p

theorem not_safe_of_patterned (ha : sb.Accepted) (p : Buf) {a : Access} (hv : a.Valid)
    (hrun : a.prog.run still (patternedState bytes sb p) = .stop .fault) : ¬ Safe bytes sb :=
  not_safe_of_still ha (seamless_patterned bytes p _)
    (fun _ hi => patterned_super ha.le_blockSize p hi) hv hrun

/-! ## The end of the largest blocks -/

/-- A block that is an inode table and a directory at once.  As an inode it has a size and a first
block; as a directory it starts with a record without a name, and at its very end it has a record
whose name of one byte would be behind it. -/
def edgeBlock : Buf := fun k =>
  if k = 4 then 0xF8 else if k = 5 then 0x0F else if k = 6 then 0 else 1

/-- The driver in front of a disk made of `edgeBlock`. -/
structure AtEdge (bytes : Buf) (sb : Super) (s : Bare) : Prop where
  sb : s.mem.sb = sb
  disk : s.disk = patterned bytes 4096 edgeBlock
  inode : s.mem.buf .inode = edgeBlock

/-- A block that has been read is `edgeBlock`, except where the superblock may be. -/
theorem AtEdge.read (h : AtEdge bytes sb s) (hbs : sb.blockSize = 4096) {b k : Nat}
    (hb : b < 2 ^ 32) (hk : k < 1024 ∨ 2048 ≤ k) (hlt : k < 4096) :
    (s.mem.load .blk (blockOf s.disk s.mem.sb.blockSize b)).buf .blk k = edgeBlock k := by
  rw [h.sb, hbs, h.disk, load_apply (by rw [h.sb, hbs]; exact hlt)]
  exact patterned_apply hb hlt edgeBlock (by omega)

/-- `read_inode` finds what is in `g_inode` already. -/
theorem AtEdge.readInode (h : AtEdge bytes sb s) (ha : sb.Accepted) (hbs : sb.blockSize = 4096) :
    Returns still (readInode 1) s fun r t => r = true ∧ AtEdge bytes sb t := by
  have hsize := ha.inodeSize.1
  rw [Ext2.readInode]
  refine returns_bind (still_inodeSlot (by rw [h.sb]; exact ha)) ?_
  rintro _ t ⟨ht, blk, hblk, rfl⟩
  have ht : AtEdge bytes sb t := ⟨ht.sb.trans h.sb, ht.disk.trans h.disk,
    (ht.buf .inode (by decide)).trans h.inode⟩
  refine returns_step (still_readBlock (by rw [ht.sb]; exact ha.fits (by decide)) hblk) ?_
  refine returns_step (run_getSb plain_still) ?_
  change Returns _ (do
    let bytes ← slice .blk 0 (if t.mem.sb.inodeSize < 256 then t.mem.sb.inodeSize else 256)
    blit .inode 0 bytes (if t.mem.sb.inodeSize < 256 then t.mem.sb.inodeSize else 256)
    pure true) _ _
  rw [ht.sb]
  have hpos : 0 < if sb.inodeSize < 256 then sb.inodeSize else 256 := by split <;> omega
  have hle : (if sb.inodeSize < 256 then sb.inodeSize else 256) ≤ 256 := by split <;> omega
  generalize (if sb.inodeSize < 256 then sb.inodeSize else 256) = n at hpos hle
  refine returns_step (run_slice plain_still hpos (by simp only [Scratch.size, kMaxBlock]; omega))
    ?_
  refine returns_step (run_blit plain_still hpos (by simp only [Scratch.size]; omega)) ?_
  refine returns_pure ⟨rfl, ht.sb, ht.disk, ?_⟩
  rw [Mem.setBuf_self, load_of_ne (by decide), ht.inode]
  funext k
  by_cases hk : k < n
  · rw [copyInto_zero hk, Nat.zero_add]
    have hread := ht.read (k := k) hbs hblk (Or.inl (by omega)) (by omega)
    rwa [ht.sb] at hread
  · rw [copyInto_of_not_mem (by omega)]

/-- The header of a record of `edgeBlock`. -/
theorem edge_direntAt (off : Nat) (hoff : off + 8 ≤ 4096)
    (hblk : ∀ k, off ≤ k → k < off + 8 → s.mem.buf .blk k = edgeBlock k) :
    (direntAt off).run still s =
      .done (rd32 edgeBlock off, rd16 edgeBlock (off + 4), (edgeBlock (off + 6)).toNat) s := by
  have h32 : rd32 (s.mem.buf .blk) off = rd32 edgeBlock off :=
    rd32_congr fun k hk => hblk _ (by omega) (by omega)
  have h16 : rd16 (s.mem.buf .blk) (off + 4) = rd16 edgeBlock (off + 4) :=
    rd16_congr fun k hk => hblk _ (by omega) (by omega)
  have hsize : ∀ n ≤ 8, off + n ≤ Scratch.size .blk := fun n hn => by
    simp only [Scratch.size, kMaxBlock]; omega
  rw [direntAt, run_bind_done (run_peek32 plain_still (hsize 4 (by omega))),
    run_bind_done (run_peek16 plain_still (hsize 6 (by omega))),
    run_bind_done (run_peek plain_still (hsize 7 (by omega))), h32, h16, hblk _ (by omega)
      (by omega)]
  rfl

/-- `remove_dirent` compares the name of the last record with bytes behind `g_blk`. -/
theorem edge_removeScan (hbs : s.mem.sb.blockSize = 4096) (pb fuel : Nat)
    (hblk : ∀ k, k < 1024 ∨ 2048 ≤ k → k < 4096 → s.mem.buf .blk k = edgeBlock k) :
    (removeScan [97] pb (fuel + 2) 0 none).run still s = .stop .fault := by
  have hfirst := edge_direntAt 0 (by omega) fun k _ hk =>
    hblk k (by omega) (by omega)
  have hlast := edge_direntAt 4088 (by omega) fun k hk hk' =>
    hblk k (by omega) (by omega)
  -- the record at 0 has another name and leads to the one at 4088
  refine stops_step (run_getSb plain_still) ?_
  rw [if_pos (by omega)]
  refine stops_step hfirst ?_
  refine stops_step (run_pure false s) ?_
  rw [if_neg (by decide)]
  refine stops_step (run_getSb plain_still) ?_
  rw [show 0 + rd16 edgeBlock (0 + 4) = 4088 by decide, if_pos (by omega)]
  refine stops_step hlast ?_
  refine run_bind_stop ?_
  rw [if_pos (by decide)]
  exact run_bind_stop (run_peek_fault plain_still (by decide))

/-- `remove_dirent` leaves `g_blk` if blocks fill it. -/
theorem edge_removeDirent (ha : sb.Accepted) (hbs : sb.blockSize = 4096) :
    (removeDirent 1 [97]).run still (patternedState bytes sb edgeBlock) = .stop .fault := by
  have hstart : AtEdge bytes sb (patternedState bytes sb edgeBlock) :=
    ⟨rfl, by rw [patternedState, hbs], rfl⟩
  refine stops_bind (hstart.readInode ha hbs) ?_
  rintro _ t ⟨rfl, ht⟩
  refine stops_step (run_getSb plain_still) ?_
  refine stops_step (run_peek32 plain_still (by decide)) ?_
  obtain ⟨fuel, hfuel⟩ : ∃ fuel, turns = fuel + 1 := ⟨2 ^ 32 - 1, rfl⟩
  have hblock : (mapBlock 0).run still t = .done (rd32 edgeBlock 40) t := by
    rw [mapBlock, run_bind_done (run_getSb plain_still)]
    rw [if_pos (by decide), run_peek32 plain_still (by decide), ht.inode]
  refine run_bind_stop ?_
  rw [hfuel]
  refine stops_step (run_getSb plain_still) ?_
  rw [if_pos (by rw [ht.inode, Nat.zero_mul]; decide)]
  refine stops_step hblock ?_
  refine stops_step (still_readBlock (by rw [ht.sb]; exact ha.fits (by decide)) (rd32_lt ..)) ?_
  refine run_bind_stop ?_
  rw [show t.mem.sb.blockSize + 1 = 4095 + 2 by rw [ht.sb, hbs]]
  exact edge_removeScan (by rw [← hbs, ← ht.sb]; rfl) _ 4095 fun k hk hlt =>
    ht.read hbs (rd32_lt ..) hk hlt

/-! ## Groups near the end of the block numbers -/

/-- A scan over a full bitmap runs behind `g_bmp`. -/
theorem full_allocScan {g bbmp : Nat} {gd : Buf} (hfull : s.mem.buf .bmp = fun _ => 255)
    (hbig : 32768 < s.mem.sb.blocksPerGroup)
    (hblocks : (s.mem.sb.firstDataBlock + g * s.mem.sb.blocksPerGroup) % 2 ^ 32 + 32768 <
      s.mem.sb.blockCount) (hcount : s.mem.sb.blockCount < 2 ^ 32) (n : Nat) : ∀ i,
    i + n = s.mem.sb.blocksPerGroup → i ≤ 32768 →
      (allocScan g bbmp gd n i).run still s = .stop .fault := by
  induction n with
  | zero => omega
  | succ n ih =>
    intro i hi hle
    refine stops_step (run_getSb plain_still) ?_
    rw [if_neg (by omega)]
    rcases Nat.lt_or_eq_of_le hle with hlt | rfl
    · have hbyte : (peek .bmp (i / 8)).run still s = .done 255 s := by
        rw [run_peek plain_still (by simp only [Scratch.size, kMaxBlock]; omega), hfull]
        rfl
      have hbit : (255 : Nat).testBit (i % 8) = true := by
        have h8 : i % 8 < 8 := Nat.mod_lt _ (by omega)
        revert h8
        generalize i % 8 = j
        revert j
        decide
      refine stops_step (run_bind_done hbyte) ?_
      rw [hbit]
      exact ih (i + 1) (by omega) hlt
    · exact run_bind_stop (run_bind_stop (run_peek_fault plain_still (by decide)))

/-- The descriptor of the second group is not where the superblock is. -/
theorem full_readGd (ha : sb.Accepted) (hfirst : 2 ^ 32 ≤ sb.firstDataBlock + 32768) :
    Returns still (readGd 1) (patternedState bytes sb fun _ => 255) fun r t =>
      BlkOnly (patternedState bytes sb fun _ => 255) t ∧ ∃ gd, r = some gd ∧
        ∀ k < 32, gd k = 255 := by
  have hbs := ha.le_blockSize
  have hmax := ha.firstDataBlock
  have hgd : sb.gdBlock < 2 ^ 32 ∧ (sb.gdBlock = 0 ∨ 2 ≤ sb.gdBlock) := by
    rw [ha.gdBlock]
    omega
  have hbyte : gdByte sb 1 = 32 + sb.gdBlock * sb.blockSize := Nat.add_comm _ _
  refine returns_mono (still_readGd ha 1) ?_
  rintro _ t ⟨ht, gd, rfl, hdata⟩
  refine ⟨ht, gd, rfl, fun k hk => (hdata k hk).trans ?_⟩
  change patterned bytes sb.blockSize (fun _ => 255) (gdByte sb 1 / sb.blockSize % 2 ^ 32 *
    sb.blockSize + (gdByte sb 1 % sb.blockSize + k)) = 255
  rw [hbyte, Nat.add_mul_div_right _ _ (by omega), Nat.div_eq_of_lt (by omega), Nat.zero_add,
    Nat.mod_eq_of_lt hgd.1, Nat.add_mul_mod_self_right, Nat.mod_eq_of_lt (by omega)]
  refine patterned_apply hgd.1 (by omega) _ ?_
  rcases hgd.2 with h0 | h2
  · rw [h0]; omega
  · have := Nat.mul_le_mul h2 hbs
    omega

/-- `alloc_block` leaves `g_bmp` in the second group if all its blocks are in use. -/
theorem full_allocBlock (ha : sb.Accepted) (hbig : 32768 < sb.blocksPerGroup)
    (hfirst : 2 ^ 32 ≤ sb.firstDataBlock + 32768) (hgroups : 1 < sb.groupCount)
    (hblocks : (sb.firstDataBlock + sb.blocksPerGroup) % 2 ^ 32 + 32768 < sb.blockCount) :
    allocBlock.run still (patternedState bytes sb fun _ => 255) = .stop .fault := by
  obtain ⟨n, hn⟩ : ∃ n, sb.groupCount = n + 1 := ⟨sb.groupCount - 1, by omega⟩
  change (allocGroups sb.groupCount 0).run _ _ = _
  rw [hn]
  refine stops_step (run_getMem plain_still) ?_
  refine stops_step (run_umod (Nat.lt_trans (by omega) hgroups)) ?_
  have hgroup : ((patternedState bytes sb fun _ => 255).mem.allocHint + 0) % 2 ^ 32 %
      (patternedState bytes sb fun _ => 255).mem.sb.groupCount = 1 := Nat.mod_eq_of_lt hgroups
  rw [hgroup]
  refine stops_bind (full_readGd ha hfirst) ?_
  rintro _ t ⟨ht, gd, rfl, hgd⟩
  have hfree : rd16 gd 12 = 65535 :=
    (rd16_congr (q := fun _ => 255) (j := 0) fun k hk => hgd _ (by omega)).trans (by decide)
  have hmap : rd32 gd 0 = 2 ^ 32 - 1 :=
    (rd32_congr (q := fun _ => 255) (j := 0) fun k hk => hgd _ (by omega)).trans (by decide)
  simp only
  rw [if_neg (by rw [hfree]; decide)]
  refine stops_step (still_readBlock (by rw [ht.sb]; exact ha.fits (by decide)) (rd32_lt ..)) ?_
  refine run_bind_stop (full_allocScan ?_ ?_ ?_ ?_ _ 0 ?_ (by omega))
  · -- the bitmap is in the last block
    rw [Mem.load, ht.buf .bmp (by decide), ht.disk, ht.sb, hmap]
    funext k
    by_cases hk : k < sb.blockSize
    · have hlast : patterned bytes sb.blockSize
        (fun _ => 255) ((2 ^ 32 - 1) * sb.blockSize + k) = 255 :=
        patterned_apply (by omega) hk _ (Or.inr (by omega))
      exact (copyInto_zero hk).trans hlast
    · exact copyInto_of_not_mem (Or.inr (by rw [Nat.zero_add]; exact Nat.le_of_not_lt hk))
  · change 32768 < t.mem.sb.blocksPerGroup
    rw [ht.sb]; exact hbig
  · change (t.mem.sb.firstDataBlock + 1 * t.mem.sb.blocksPerGroup) % 2 ^ 32 + 32768 <
      t.mem.sb.blockCount
    rw [ht.sb, Nat.one_mul]; exact hblocks
  · change t.mem.sb.blockCount < 2 ^ 32
    rw [ht.sb]; exact ha.blockCount
  · change 0 + sb.blocksPerGroup = t.mem.sb.blocksPerGroup
    rw [ht.sb, Nat.zero_add]; rfl

/-! ## The main result -/

/-- **Which superblocks the mount may accept.**  With an accepted superblock no function leaves its
buffers and none divides by zero, whatever the rest of the disk and the buffers hold and however
transfers end, exactly if the superblock `Fits`. -/
theorem mount_check (bytes : Buf) (sb : Super) (h : acceptSuper bytes = some sb) :
    Safe bytes sb ↔ Fits sb := by
  have ha := acceptSuper_some h
  refine ⟨fun hsafe => ?_, fun hf => hf.safe ha⟩
  have hblock : sb.blockSize ≠ 4096 := fun hbs =>
    not_safe_of_patterned (a := .removeDirent 1 [97]) ha edgeBlock ⟨by omega, by decide⟩
      (run_bind_stop (edge_removeDirent ha hbs)) hsafe
  have hinode : ¬ 256 < sb.inodeSize := fun hbig =>
    not_safe_of_patterned (a := .writeInode 1) ha (fun _ => 0) (show 1 < 2 ^ 32 by omega)
      (run_bind_stop (still_writeInode_fault ha hbig)) hsafe
  have hinodes : ¬ 32768 < sb.inodesPerGroup := fun hbig =>
    not_safe_of_patterned (a := .freeInode 32769 false) ha (fun _ => 0)
      (show 32769 < 2 ^ 32 by omega) (still_freeInode_fault ha hbig) hsafe
  refine ⟨?_, by omega, by omega, ?_⟩
  · rcases ha.blockSize with h | h | h <;> omega
  rcases Nat.lt_or_ge 32768 sb.blocksPerGroup with hbig | hsmall
  swap
  · exact Or.inl hsmall
  -- groups this large are only left in time behind block 2 ^ 32 - 32768
  have hfirst : ¬ sb.firstDataBlock + 32768 < 2 ^ 32 := fun hlt =>
    not_safe_of_patterned (a := .freeBlock (sb.firstDataBlock + 32768)) ha (fun _ => 0) hlt
      (still_freeBlock_fault ha hbig) hsafe
  by_contra hend
  refine not_safe_of_patterned (a := .allocBlock) ha (fun _ => 255) trivial ?_ hsafe
  exact run_bind_stop (full_allocBlock ha hbig (by omega) (by omega) (by omega))

/-- The superblock of a disk of 64 blocks of `1024 * 2 ^ shift` bytes in one group. -/
def smallBytes (shift : Nat) : Buf :=
  wr16 (wr32 (wr32 (wr32 (wr32 (wr32 (wr32 (fun _ => 0) 0 32) 4 64) 20 (1 - shift)) 24 shift)
    32 8192) 40 32) 56 0xEF53

/-- What the mount keeps of `smallBytes`. -/
def smallSuper (shift : Nat) : Super where
  mounted := true
  blockSize := 1024 * 2 ^ shift
  inodeSize := 128
  inodesPerGroup := 32
  blocksPerGroup := 8192
  firstDataBlock := 1 - shift
  inodeCount := 32
  blockCount := 64
  groupCount := 1
  gdBlock := 1 - shift + 1

/-- With blocks of 1 KiB the driver is safe. -/
theorem mount_check_small : acceptSuper (smallBytes 0) = some (smallSuper 0) ∧
    Safe (smallBytes 0) (smallSuper 0) := by
  have h : acceptSuper (smallBytes 0) = some (smallSuper 0) := by decide +kernel
  exact ⟨h, (mount_check _ _ h).2 (by decide +kernel)⟩

/-- A disk with blocks of 4 KiB: the descriptor of the only group in block 1, the inode table in
block 2 with the root directory, and the directory in block 3.  Its second record starts eight bytes
before the end of the block and has a name of one byte. -/
def edgeDisk : Buf := fun a =>
  if 1024 ≤ a ∧ a < 2048 then smallBytes 2 (a - 1024)
  else if a / 4096 = 1 then wr32 (fun _ => 0) 8 2 (a % 4096)
  else if a / 4096 = 2 then
    wr32 (wr32 (wr16 (fun _ => 0) 128 0x41ED) 132 4096) 168 3 (a % 4096)
  else if a / 4096 = 3 then
    wr32 (wr32 (wr32 (wr32 (fun _ => 0) 0 2) 4 (4088 + 0x10000)) 4088 2) 4092 (8 + 0x10000)
      (a % 4096)
  else 0

/-- Has the run left a buffer? -/
def faulted {α : Type} : Result Stop World α → Bool
  | .stop .fault => true
  | _ => false

/-- With blocks of 4 KiB, listing a directory reads behind `g_blk`. -/
theorem not_safe_large_blocks : acceptSuper (smallBytes 2) = some (smallSuper 2) ∧
    ¬ Safe (smallBytes 2) (smallSuper 2) := by
  refine ⟨by decide +kernel, fun hsafe => ?_⟩
  have hrun : faulted ((freshWorld (smallSuper 2) edgeDisk).run
      (Access.listDir (cstr "/") 2).prog) = true := by decide +kernel
  have hsb : ∀ i < 1024, edgeDisk (1024 + i) = smallBytes 2 i := by
    intro i hi
    rw [edgeDisk, if_pos (by omega), Nat.add_sub_cancel_left]
  refine hsafe (freshWorld (smallSuper 2) edgeDisk) rfl hsb (.listDir (cstr "/") 2)
    (show 2 < 2 ^ 32 by decide) ?_
  revert hrun
  generalize (freshWorld (smallSuper 2) edgeDisk).run (Access.listDir (cstr "/") 2).prog = r
  intro hr
  match r, hr with
  | .stop .fault, _ => rfl

end IndexOS.Ext2
