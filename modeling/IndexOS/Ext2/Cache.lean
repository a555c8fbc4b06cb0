import IndexOS.Ext2.Basic

/-!
# The block cache

`read_block` and `write_block` keep a direct-mapped cache of blocks in front of the disk, written
through, with a read-ahead of eight blocks for sequential reads.  `World` is the driver's memory,
the disk and the cache together, and `World.io` says how the coming transfers end: a transfer that
fails leaves the disk alone, but may leave anything in the buffer it was to fill.

The invariant of the cache is `LinesOk`: a valid line holds what the disk holds of the block it is
tagged with.  There is one way to break it that the source accepts: a write that fails after some
of its sectors have reached the disk leaves the line as it was.  Each line therefore carries a
history variable `torn`, which the driver does not have: such a write has happened since the line
was filled.

`readBlock_spec` and `writeBlock_spec` say what one call does; `cache_transparent` says that a
read that returns true delivers what is on the disk.  The read-ahead computes the end of its
window in 32 bits, so it needs that no window reaches beyond block 2 ^ 32 (`NoWrap`).
-/

set_option autoImplicit false

namespace IndexOS.Ext2

open Function (forall_update_iff update update_of_ne update_self)
open Interaction LittleEndian

def kBlkCacheN : Nat := 8192
def kReadAhead : Nat := 8

/-- `BlkCacheLine` and its data. -/
structure CacheLine where
  block : Nat := 0
  valid : Bool := false
  data : Buf := fun _ => 0
  /-- History: a write of the block has failed part-way since the line was filled. -/
  torn : Bool := false

/-- How a transfer ends; one that fails may leave anything in the destination. -/
inductive Transfer
  | ok
  | failed (junk : Buf)

/-- The driver in its surroundings. -/
structure World where
  mem : Mem
  /-- The bytes of the disk. -/
  disk : Buf
  /-- `g_bc_meta` and `g_bc_data` -/
  line : Nat → CacheLine
  /-- `g_ra_last`, the last block asked for. -/
  raLast : Nat
  /-- The outcomes of the coming transfers. -/
  io : Nat → Transfer

namespace World

variable (w : World)

/-- The next transfer has been made. -/
def tick : World := { w with io := fun k => w.io (k + 1) }

/-- Put the first `blockSize` bytes of `data` into a scratch buffer. -/
def load (dst : Scratch) (data : Buf) : World :=
  { w with mem := w.mem.setBuf dst (copyInto (w.mem.buf dst) 0 data 0 w.mem.sb.blockSize) }

/-- The line of a block is valid and tagged with it. -/
def hit (b : Nat) : Bool :=
  (w.line (b % kBlkCacheN)).valid && (w.line (b % kBlkCacheN)).block == b

/-- Fill the line of a block. -/
def fill (b : Nat) (data : Buf) : World :=
  let filled : CacheLine :=
    { block := b
      valid := true
      data := copyInto (w.line (b % kBlkCacheN)).data 0 data 0 w.mem.sb.blockSize
      torn := false }
  { w with line := update w.line (b % kBlkCacheN) filled }

/-- A write of `b` has failed part-way. -/
def tear (b : Nat) : World :=
  let line := { w.line (b % kBlkCacheN) with torn := true }
  if w.hit b then { w with line := update w.line (b % kBlkCacheN) line } else w

/-- The bytes of the disk from the first sector of block `b` on. -/
def fromBlock (b : Nat) : Buf := fun i =>
  w.disk (b * (w.mem.sb.blockSize / kSector) * kSector + i)

/-- Fill the lines of `n` blocks of the window that starts at `block`, from its `k`-th on. -/
def fillWindow (block : Nat) (ra : Buf) : Nat → Nat → World → World
  | 0, _, w => w
  | n + 1, k, w =>
    fillWindow block ra n (k + 1)
      (w.fill ((block + k) % 2 ^ 32) fun i => ra (k * w.mem.sb.blockSize + i))

/-- The last part of `read_block`: one block, by itself. -/
def readSingle (block : Nat) (dst : Scratch) : Bool × World :=
  match w.io 0 with
  | .failed junk => (false, w.tick.load dst junk)
  | .ok => (true, (w.tick.load dst (w.fromBlock block)).fill block (w.fromBlock block))

/-- How many blocks `read_block` reads ahead from `block`. -/
def window (block : Nat) : Nat :=
  if (block + kReadAhead) % 2 ^ 32 > w.mem.sb.blockCount then
    if block < w.mem.sb.blockCount then w.mem.sb.blockCount - block else 1
  else kReadAhead

/-- `read_block` -/
def readBlock (block : Nat) (dst : Scratch) : Bool × World :=
  if w.hit block then
    (true, { w.load dst (w.line (block % kBlkCacheN)).data with raLast := block })
  else
    let sequential := block == (w.raLast + 1) % 2 ^ 32
    let w := { w with raLast := block }
    if sequential && decide (w.window block > 1) then
      match w.io 0 with
      | .ok =>
        let n := w.window block
        let ra := w.fromBlock block
        let w := fillWindow block ra n 0 w.tick
        (true, { w.load dst ra with raLast := (block + n - 1) % 2 ^ 32 })
      | .failed _ => w.tick.readSingle block dst
    else w.readSingle block dst

/-- The loop of `write_block` from sector `s` of the block on, `n` sectors being left. -/
def writeSectors (block : Nat) (src : Buf) : Nat → Nat → World → Bool × World
  | 0, _, w => (true, w)
  | n + 1, s, w =>
    match w.io 0 with
    | .failed _ => (false, if s = 0 then w.tick else w.tick.tear block)
    | .ok =>
      writeSectors block src n (s + 1)
        { w.tick with
          disk := copyInto w.disk ((block * (w.mem.sb.blockSize / kSector) + s) * kSector) src
            (s * kSector) kSector }

/-- `write_block` -/
def writeBlock (block : Nat) (src : Buf) : Bool × World :=
  match writeSectors block src (w.mem.sb.blockSize / kSector) 0 w with
  | (false, w') => (false, w')
  | (true, w') => (true, w'.fill block src)

end World

/-! ## Runs of reads and writes -/

/-- A call of `read_block` or `write_block`. -/
inductive BlockCall
  | read (b : Nat) (dst : Scratch)
  | write (b : Nat) (data : Buf)

def BlockCall.block : BlockCall → Nat
  | .read b _ => b
  | .write b _ => b

def BlockCall.exec (w : World) : BlockCall → World
  | .read b dst => (w.readBlock b dst).2
  | .write b data => (w.writeBlock b data).2

def runCalls (w : World) : List BlockCall → World
  | [] => w
  | c :: cs => runCalls (c.exec w) cs

/-- The world right after a successful mount: whatever the disk and the scratch buffers hold and
however the coming transfers end, the cache is empty. -/
structure Fresh (w : World) : Prop where
  sb : w.mem.sb.Accepted
  line : ∀ i, (w.line i).valid = false
  raLast : w.raLast = 0xFFFFFFFF

/-- A fresh world in which every transfer succeeds. -/
def freshWorld (sb : Super) (disk : Buf) : World where
  mem :=
    { sb := sb, buf := fun _ _ => 0, dentry := fun _ => {}, dentryClock := 0, allocHint :=
      0, now := 0 }
  disk := disk
  line := fun _ => {}
  raLast := 0xFFFFFFFF
  io := fun _ => .ok

theorem fresh_freshWorld {sb : Super} (h : sb.Accepted) (disk : Buf) : Fresh (freshWorld sb disk) :=
  ⟨h, fun _ => rfl, rfl⟩

/-- What a mount makes of a superblock with 1 KiB blocks in groups of 8192. -/
def plainSuper (blockCount : Nat) : Super where
  mounted := true
  blockSize := 1024
  inodeSize := 128
  inodesPerGroup := 1024
  blocksPerGroup := 8192
  firstDataBlock := 1
  inodeCount := 1024
  blockCount := blockCount
  groupCount := (blockCount + 2 ^ 32 - 1 + 8192 - 1) % 2 ^ 32 / 8192
  gdBlock := 2

theorem accepted_plainSuper {n : Nat} (hn : n < 2 ^ 32) : (plainSuper n).Accepted :=
  ⟨rfl, Or.inl rfl, by simp [plainSuper], by simp [plainSuper], by simp [plainSuper],
    by simp [plainSuper], by simp [plainSuper], hn, rfl, rfl⟩

/-- The read-ahead window of a call does not wrap around: a write, a hit, a read that does not
follow the one before, or a block whose window ends within 32 bits. -/
def BlockCall.NoWrap (w : World) : BlockCall → Prop
  | .read b _ => w.hit b = true ∨ b ≠ (w.raLast + 1) % 2 ^ 32 ∨ b + kReadAhead ≤ 2 ^ 32
  | .write _ _ => True

def AllNoWrap : World → List BlockCall → Prop
  | _, [] => True
  | w, c :: cs => c.NoWrap w ∧ AllNoWrap (c.exec w) cs

/-! ## The invariant -/

/-- A valid line sits where it belongs, and one that is not torn holds what the disk holds of its
block, except at the addresses `E`. -/
structure LineOk (E : Nat → Prop) (bs : Nat) (disk : Buf) (i : Nat) (l : CacheLine) : Prop where
  index : l.valid = true → l.block % kBlkCacheN = i
  small : l.valid = true → l.block < 2 ^ 32
  data : l.valid = true → l.torn = false → ∀ k < bs,
    ¬ E (l.block * bs + k) → l.data k = disk (l.block * bs + k)

/-- Every line is in order. -/
def LinesOk (E : Nat → Prop) (bs : Nat) (line : Nat → CacheLine) (disk : Buf) : Prop :=
  ∀ i, LineOk E bs disk i (line i)

variable {E : Nat → Prop} {w : World}

/-- The invariant of a world. -/
abbrev World.Ok (E : Nat → Prop) (w : World) : Prop :=
  LinesOk E w.mem.sb.blockSize w.line w.disk

/-- Block sizes are whole numbers of sectors. -/
theorem Super.Accepted.sectors {s : Super} (h : s.Accepted) :
    s.blockSize / kSector * kSector = s.blockSize := by
  rcases h.blockSize with h | h | h <;> rw [h, kSector]

open World

theorem fromBlock_apply (hs : w.mem.sb.Accepted) (b i : Nat) :
    w.fromBlock b i = w.disk (b * w.mem.sb.blockSize + i) := by
  rw [fromBlock, Nat.mul_assoc, hs.sectors]

variable {disk : Buf} {line : Nat → CacheLine} {b : Nat}

/-- Without its line `j`, the cache is still in order. -/
theorem LinesOk.drop {bs : Nat} (h : LinesOk E bs line disk) (j : Nat) :
    LinesOk E bs (update line j {}) disk :=
  (forall_update_iff line (LineOk E bs disk)).2 ⟨⟨nofun, nofun, nofun⟩, fun i _ => h i⟩

/-- The line of a block may be filled with what the disk holds, whatever was in it. -/
theorem LinesOk.fill {data : Buf}
    (h : LinesOk E w.mem.sb.blockSize (update w.line (b % kBlkCacheN) {}) w.disk) (hb : b < 2 ^ 32)
    (hd : ∀ k < w.mem.sb.blockSize, ¬ E (b * w.mem.sb.blockSize + k) →
      data k = w.disk (b * w.mem.sb.blockSize + k)) :
    Ok E (w.fill b data) := by
  have hothers := ((forall_update_iff w.line (LineOk E w.mem.sb.blockSize w.disk)).1 h).2
  refine (forall_update_iff w.line (LineOk E w.mem.sb.blockSize w.disk)).2
    ⟨⟨fun _ => rfl, fun _ => hb, ?_⟩, hothers⟩
  exact fun _ _ k hk he => (copyInto_zero hk).trans (hd k hk he)

/-! ## Reading -/

/-- `fillWindow` changes lines only. -/
theorem fillWindow_frame (block : Nat) (ra : Buf) (n : Nat) : ∀ (k : Nat) (w : World),
    ∃ line, fillWindow block ra n k w = { w with line := line } := by
  induction n with
  | zero => exact fun k w => ⟨w.line, rfl⟩
  | succ n ih =>
    intro k w
    obtain ⟨line, hl⟩ := ih (k + 1)
      (w.fill ((block + k) % 2 ^ 32) fun i => ra (k * w.mem.sb.blockSize + i))
    exact ⟨line, by rw [fillWindow, hl]; rfl⟩

/-- A disk that starts again after 2 ^ 32 blocks of `bs` bytes. -/
def Seamless (bs : Nat) (disk : Buf) : Prop :=
  ∀ b k, disk (b % 2 ^ 32 * bs + k) = disk (b * bs + k)

/-- Filling a window that stays below block 2 ^ 32 keeps the invariant, and so does one that wraps
around on a disk that does. -/
theorem fillWindow_ok {block : Nat} {ra : Buf} (n : Nat) : ∀ (k : Nat) (w : World),
    Ok E w → (block + (k + n) ≤ 2 ^ 32 ∨ Seamless w.mem.sb.blockSize w.disk) →
    (∀ i, ra i = w.disk (block * w.mem.sb.blockSize + i)) →
    Ok E (fillWindow block ra n k w) := by
  induction n with
  | zero => exact fun _ _ h _ _ => h
  | succ n ih =>
    intro k w h hwin hra
    refine ih (k + 1) _ ?_ (hwin.imp_left fun _ => by omega) hra
    refine LinesOk.fill (h.drop _) (Nat.mod_lt _ (by omega)) fun i _ _ => ?_
    rw [hra, ← Nat.add_assoc, ← Nat.add_mul]
    rcases hwin with hwin | hwin
    · rw [Nat.mod_eq_of_lt (by omega)]
    · rw [hwin]

/-- What `read_block` does: the disk and the other buffers stay, and a read that succeeds delivers
the block unless its line was torn. -/
structure ReadSpec (E : Nat → Prop) (w : World) (b : Nat) (dst : Scratch) (r : Bool × World) :
    Prop where
  sb : r.2.mem.sb = w.mem.sb
  disk : r.2.disk = w.disk
  /-- Only the first `blockSize` bytes of the destination change. -/
  mem : ∃ data, r.2.mem = w.mem.setBuf dst (copyInto (w.mem.buf dst) 0 data 0 w.mem.sb.blockSize) ∧
    (r.1 = true → (w.hit b = true → (w.line (b % kBlkCacheN)).torn = false) →
      ∀ k < w.mem.sb.blockSize, ¬ E (b * w.mem.sb.blockSize + k) →
        data k = w.disk (b * w.mem.sb.blockSize + k))
  ok : (w.hit b = true ∨ b ≠ (w.raLast + 1) % 2 ^ 32 ∨ b + kReadAhead ≤ 2 ^ 32 ∨
    Seamless w.mem.sb.blockSize w.disk) → World.Ok E r.2

theorem hit_iff : w.hit b = true ↔
    (w.line (b % kBlkCacheN)).valid = true ∧ (w.line (b % kBlkCacheN)).block = b := by
  simp [hit]

theorem readSingle_spec (hs : w.mem.sb.Accepted) (h : Ok E w) (hb : b < 2 ^ 32) (dst : Scratch) :
    (w.readSingle b dst).2.mem.sb = w.mem.sb ∧ (w.readSingle b dst).2.disk = w.disk ∧
    (∃ data, (w.readSingle b dst).2.mem =
        w.mem.setBuf dst (copyInto (w.mem.buf dst) 0 data 0 w.mem.sb.blockSize) ∧
      ((w.readSingle b dst).1 = true → ∀ k,
        data k = w.disk (b * w.mem.sb.blockSize + k))) ∧
    Ok E (w.readSingle b dst).2 := by
  rw [readSingle]
  split
  · rename_i junk _
    exact ⟨rfl, rfl, ⟨junk, rfl, fun h => by cases h⟩, h⟩
  · refine ⟨rfl, rfl, ⟨w.fromBlock b, rfl, fun _ k => fromBlock_apply hs b k⟩, ?_⟩
    have hload : Ok E (w.tick.load dst (w.fromBlock b)) := h
    exact LinesOk.fill (hload.drop _) hb fun k _ _ => fromBlock_apply hs b k

/-- A window is never longer than the read-ahead. -/
theorem window_le (w : World) (hb : b + kReadAhead ≤ 2 ^ 32) (hc : w.mem.sb.blockCount < 2 ^ 32) :
    b + w.window b ≤ 2 ^ 32 := by
  rw [window]
  split
  · split
    · rename_i hlt
      rw [Nat.add_sub_cancel' (Nat.le_of_lt hlt)]
      exact Nat.le_of_lt hc
    · exact Nat.le_trans (Nat.add_le_add_left (by decide) b) hb
  · exact hb

theorem readBlock_spec (hs : w.mem.sb.Accepted) (h : World.Ok E w) (hb : b < 2 ^ 32)
    (dst : Scratch) : ReadSpec E w b dst (w.readBlock b dst) := by
  rw [World.readBlock]
  split
  · -- a hit delivers the line
    rename_i hhit
    obtain ⟨hv, hblk⟩ := hit_iff.1 hhit
    refine ⟨rfl, rfl, ⟨(w.line (b % kBlkCacheN)).data, rfl, fun _ ht k hk he => ?_⟩, fun _ => h⟩
    have := (h _).data hv (ht hhit) k hk
    rw [hblk] at this
    exact this he
  · rename_i hmiss
    have hmiss : w.hit b = false := by simpa using hmiss
    simp only
    -- a block that is read by itself
    have hsingle : ∀ v : World, v.mem = w.mem → v.disk = w.disk → v.line = w.line →
        ReadSpec E w b dst (v.readSingle b dst) := by
      intro v hm hd hl
      obtain ⟨h1, h2, ⟨data, h3, h4⟩, h5⟩ := readSingle_spec (hm ▸ hs)
        (by rw [World.Ok, hm, hd, hl]; exact h) hb dst
      rw [hm] at h1 h3 h4
      rw [hd] at h2 h4
      exact ⟨h1, h2, ⟨data, h3, fun ht _ k _ _ => h4 ht k⟩, fun _ => h5⟩
    split
    · rename_i hseq
      simp only [Bool.and_eq_true, beq_iff_eq] at hseq
      split
      · -- the whole window comes in one transfer
        obtain ⟨line, hline⟩ := fillWindow_frame b (fromBlock { w with raLast := b } b)
          (window { w with raLast := b } b) 0 (tick { w with raLast := b })
        refine ⟨by rw [hline]; rfl, by rw [hline]; rfl,
          ⟨fromBlock w b, by rw [hline]; rfl, fun _ _ k _ _ => fromBlock_apply hs b k⟩,
          fun hwin => ?_⟩
        have hwin : b + kReadAhead ≤ 2 ^ 32 ∨ Seamless w.mem.sb.blockSize w.disk := by
          rcases hwin with hwin | hwin | hwin
          · rw [hmiss] at hwin; cases hwin
          · exact absurd hseq.1 hwin
          · exact hwin
        refine fillWindow_ok _ 0 _ h (hwin.imp_left fun hle => ?_) fun i =>
          fromBlock_apply hs b i
        rw [Nat.zero_add]
        exact window_le { w with raLast := b } hle hs.blockCount
      · exact hsingle _ rfl rfl rfl
    · exact hsingle _ rfl rfl rfl

/-! ## Writing -/

/-- The bytes of two different blocks have different addresses. -/
theorem outside_of_block_ne {b c bs k : Nat} (h : c ≠ b) (hk : k < bs) :
    c * bs + k < b * bs ∨ b * bs + bs ≤ c * bs + k := by
  rcases Nat.lt_or_gt_of_ne h with hlt | hgt
  · left
    calc c * bs + k < c * bs + bs := by omega
      _ = (c + 1) * bs := by rw [Nat.add_mul, Nat.one_mul]
      _ ≤ b * bs := Nat.mul_le_mul_right bs hlt
  · right
    calc b * bs + bs = (b + 1) * bs := by rw [Nat.add_mul, Nat.one_mul]
      _ ≤ c * bs := Nat.mul_le_mul_right bs hgt
      _ ≤ c * bs + k := Nat.le_add_right _ _

section
variable {bs b : Nat} {disk disk' : Buf} (h : LinesOk E bs line disk) (hd : ∀ a, a < b * bs ∨
  b * bs + bs ≤ a → disk' a = disk a)
include h hd

/-- When the disk changes in block `b` only, every line but that of `b` stays right. -/
theorem LinesOk.change {i : Nat}
    (hb : (line i).valid = true → (line i).torn = false → (line i).block ≠ b) :
    LineOk E bs disk' i (line i) := by
  refine ⟨(h i).index, (h i).small, fun hv ht k hk he => ?_⟩
  rw [hd _ (outside_of_block_ne (hb hv ht) hk)]
  exact (h i).data hv ht k hk he

theorem LinesOk.change_drop : LinesOk E bs (update line (b % kBlkCacheN) {}) disk' := by
  refine (forall_update_iff line (LineOk E bs disk')).2
    ⟨⟨nofun, nofun, nofun⟩, fun i hi => h.change hd ?_⟩
  rintro hv - rfl
  exact hi ((h i).index hv).symm

end

/-- After a write of `b` that failed part-way, the line of `b` is torn and the others are right. -/
theorem LinesOk.tear (h : LinesOk E w.mem.sb.blockSize w.line disk)
    (hd : ∀ a, a < b * w.mem.sb.blockSize ∨ b * w.mem.sb.blockSize + w.mem.sb.blockSize ≤ a →
      w.disk a = disk a) :
    World.Ok E (w.tear b) := by
  rw [World.tear]
  split
  · refine (forall_update_iff w.line (LineOk E w.mem.sb.blockSize w.disk)).2
      ⟨⟨(h (b % kBlkCacheN)).index, (h (b % kBlkCacheN)).small, nofun⟩, fun i hi => h.change hd ?_⟩
    rintro hv - rfl
    exact hi ((h i).index hv).symm
  · rename_i hmiss
    refine fun i => h.change hd ?_
    rintro hv - rfl
    refine hmiss (hit_iff.2 ?_)
    rw [(h i).index hv]
    exact ⟨hv, rfl⟩

/-- The disk after the first `n` bytes of `src` have gone to block `b`. -/
def written (disk : Buf) (bs b : Nat) (src : Buf) (n : Nat) : Buf := fun a =>
  if b * bs ≤ a ∧ a < b * bs + n then src (a - b * bs) else disk a

theorem written_outside {bs b n a : Nat} {src : Buf} (hn : n ≤ bs)
    (h : a < b * bs ∨ b * bs + bs ≤ a) : written disk bs b src n a = disk a := by
  rw [written, if_neg (by omega)]

theorem written_inside {bs b n k : Nat} {src : Buf} (hk : k < n) :
    written disk bs b src n (b * bs + k) = src k := by
  rw [written, if_pos (by omega), Nat.add_sub_cancel_left]

/-- One more sector. -/
theorem written_sector (disk : Buf) (bs b : Nat) (src : Buf) (n : Nat) :
    copyInto (written disk bs b src n) (b * bs + n) src n kSector =
      written disk bs b src (n + kSector) := by
  funext a
  rw [copyInto, written, written]
  by_cases h1 : b * bs + n ≤ a ∧ a < b * bs + n + kSector
  · rw [if_pos h1, if_pos (by omega)]
    congr 1
    omega
  · rw [if_neg h1]
    by_cases h2 : b * bs ≤ a ∧ a < b * bs + n
    · rw [if_pos h2, if_pos (by omega)]
    · rw [if_neg h2, if_neg (by omega)]

section
variable (hs : w.mem.sb.Accepted)
include hs

/-- The loop of `write_block`, `s` sectors of the block having been written to `disk`. -/
theorem writeSectors_spec (b : Nat) (src : Buf) (n : Nat) :
    ∀ (s : Nat) (w' : World), w'.mem = w.mem → w'.line = w.line →
      (s + n) * kSector = w.mem.sb.blockSize →
      w'.disk = written disk w.mem.sb.blockSize b src (s * kSector) →
      LinesOk E w.mem.sb.blockSize w.line disk →
      (writeSectors b src n s w').2.mem = w.mem ∧
      ((writeSectors b src n s w').1 = true →
        (writeSectors b src n s w').2.line = w.line ∧
        (writeSectors b src n s w').2.disk =
          written disk w.mem.sb.blockSize b src w.mem.sb.blockSize) ∧
      ((writeSectors b src n s w').1 = false →
        Ok E (writeSectors b src n s w').2) := by
  induction n with
  | zero =>
    intro s w' hm hl hn hd _
    rw [writeSectors]
    rw [Nat.add_zero] at hn
    exact ⟨hm, fun _ => ⟨hl, by rw [hd, hn]⟩, fun h => by cases h⟩
  | succ n ih =>
    intro s w' hm hl hn hd h
    have hle : s * kSector ≤ w.mem.sb.blockSize := by
      rw [← hn]
      exact Nat.mul_le_mul_right _ (Nat.le_add_right _ _)
    rw [writeSectors]
    split
    · refine ⟨?_, (fun h => by cases h), fun _ => ?_⟩
      · split
        · exact hm
        · rw [tear]; split <;> exact hm
      · split
        · -- nothing has been written
          rename_i hzero
          have hdisk : w'.disk = disk := by
            rw [hd, hzero]
            funext a
            rw [written, if_neg (by omega)]
          change LinesOk E w'.mem.sb.blockSize w'.line w'.disk
          rw [hm, hl, hdisk]
          exact h
        · have hold : LinesOk E w'.tick.mem.sb.blockSize w'.tick.line disk := by
            change LinesOk E w'.mem.sb.blockSize w'.line disk
            rw [hm, hl]
            exact h
          refine hold.tear fun a ha => ?_
          · change w'.disk a = disk a
            have ha : a < b * w.mem.sb.blockSize ∨
                b * w.mem.sb.blockSize + w.mem.sb.blockSize ≤ a := by
              rw [← hm]; exact ha
            rw [hd, written_outside hle ha]
    · have haddr : (b * (w'.mem.sb.blockSize / kSector) + s) * kSector =
          b * w.mem.sb.blockSize + s * kSector := by
        rw [hm, Nat.add_mul, Nat.mul_assoc, hs.sectors]
      refine ih (s + 1) _ hm hl (by rw [← hn]; congr 1; omega) ?_ h
      rw [haddr, hd, written_sector, Nat.add_mul, Nat.one_mul]

/-- What `write_block` does to the memory and the cache. -/
theorem writeBlock_spec (h : World.Ok E w) (hb : b < 2 ^ 32) (src : Buf) :
    (w.writeBlock b src).2.mem = w.mem ∧ World.Ok E (w.writeBlock b src).2 := by
  have hsectors : (0 + w.mem.sb.blockSize / kSector) * kSector = w.mem.sb.blockSize := by
    rw [Nat.zero_add, hs.sectors]
  have hstart : w.disk = written w.disk w.mem.sb.blockSize b src (0 * kSector) := by
    funext a
    rw [written, if_neg (by omega)]
  obtain ⟨hmem, htrue, hfalse⟩ := writeSectors_spec hs b src _ 0 w rfl rfl hsectors
    hstart h
  rw [World.writeBlock]
  split
  · rename_i w' heq
    rw [heq] at hmem hfalse
    exact ⟨hmem, hfalse rfl⟩
  · rename_i w' heq
    rw [heq] at hmem htrue
    obtain ⟨hline, hd⟩ := htrue rfl
    refine ⟨hmem, LinesOk.fill ?_ hb fun k hk _ => ?_⟩
    · rw [hmem, hline, hd]
      exact h.change_drop fun a ha => written_outside (Nat.le_refl _) ha
    · rw [hmem] at hk ⊢
      rw [hd, written_inside hk]

/-! ## Whole runs -/

theorem BlockCall.exec_ok (h : Ok E w) {c : BlockCall}
    (hb : c.block < w.mem.sb.blockCount) (hc : c.NoWrap w) :
    (c.exec w).mem.sb = w.mem.sb ∧ Ok E (c.exec w) := by
  have hlt : c.block < 2 ^ 32 := Nat.lt_trans hb hs.blockCount
  cases c with
  | read b dst =>
    have hr := readBlock_spec hs h hlt dst
    exact ⟨hr.sb, hr.ok (hc.imp_right (Or.imp_right Or.inl))⟩
  | write b data =>
    obtain ⟨hmem, hok⟩ := writeBlock_spec hs h hlt data
    exact ⟨congrArg Mem.sb hmem, hok⟩

end

theorem runCalls_ok (calls : List BlockCall) : ∀ {w : World}, w.mem.sb.Accepted →
    Ok E w → (∀ c ∈ calls, c.block < w.mem.sb.blockCount) → AllNoWrap w calls →
    (runCalls w calls).mem.sb = w.mem.sb ∧ Ok E (runCalls w calls) := by
  induction calls with
  | nil => exact fun _ h _ _ => ⟨rfl, h⟩
  | cons c calls ih =>
    intro w hs h hin hwrap
    obtain ⟨hsb, hok⟩ := c.exec_ok hs h (hin c List.mem_cons_self) hwrap.1
    have hrest := ih (by rw [hsb]; exact hs) hok
      (fun d hd => by rw [hsb]; exact hin d (List.mem_cons_of_mem c hd)) hwrap.2
    exact ⟨hrest.1.trans hsb, hrest.2⟩

theorem Fresh.ok (h : Fresh w) : Ok E w := by
  intro i
  constructor <;> intro hv <;> rw [h.line i] at hv <;> cases hv

/-- **The block cache is transparent.**  After a mount and any sequence of reads and writes of
blocks of the disk, with transfers that succeed and fail at will, a `read_block` that returns true
has put into its buffer exactly what the disk holds of that block — provided its line, if it comes
from one, has not been torn by a failed write since it was filled, and no read-ahead window of the
sequence has wrapped around. -/
theorem cache_transparent {w₀ : World} (h₀ : Fresh w₀) (calls : List BlockCall)
    (hin : ∀ c ∈ calls, c.block < w₀.mem.sb.blockCount) (hwrap : AllNoWrap w₀ calls)
    {b : Nat} (hb : b < w₀.mem.sb.blockCount) (dst : Scratch)
    (htorn : (runCalls w₀ calls).hit b = true →
      ((runCalls w₀ calls).line (b % kBlkCacheN)).torn = false)
    (hread : ((runCalls w₀ calls).readBlock b dst).1 = true) :
    ∀ k < w₀.mem.sb.blockSize,
      ((runCalls w₀ calls).readBlock b dst).2.mem.buf dst k =
        ((runCalls w₀ calls).readBlock b dst).2.disk (b * w₀.mem.sb.blockSize + k) := by
  obtain ⟨hsb, hok⟩ := runCalls_ok (E := fun _ => False) calls h₀.sb h₀.ok hin hwrap
  have hspec := readBlock_spec (by rw [hsb]; exact h₀.sb) hok (Nat.lt_trans hb h₀.sb.blockCount) dst
  obtain ⟨data, hmem, hdata⟩ := hspec.mem
  intro k hk
  rw [← hsb] at hk ⊢
  rw [hmem, hspec.disk, Mem.setBuf_self, copyInto_zero hk]
  exact hdata hread htorn k hk not_false

theorem cache_transparent_write_read :
    ((runCalls (freshWorld (plainSuper 64) fun _ => 0)
      [.read 3 .blk, .write 9 fun _ => 7]).readBlock 9 .ind).2.mem.buf .ind 5 =
    ((runCalls (freshWorld (plainSuper 64) fun _ => 0)
      [.read 3 .blk, .write 9 fun _ => 7]).readBlock 9 .ind).2.disk (9 * 1024 + 5) :=
  cache_transparent (fresh_freshWorld (accepted_plainSuper (by decide)) _)
    [.read 3 .blk, .write 9 fun _ => 7] (by simp [BlockCall.block, freshWorld, plainSuper])
    ⟨Or.inr (Or.inr (by decide)), trivial, trivial⟩ (by decide) .ind
    (fun _ => by decide +kernel) (by decide +kernel) 5 (by decide)

/-- On a disk of 2 ^ 32 - 1 blocks, two sequential reads at its end make the read-ahead wrap
around: the line of block 0 is filled with what lies behind the last block, and a read of block 0
delivers that. -/
theorem not_cache_transparent_wrap :
    Fresh (freshWorld (plainSuper 0xFFFFFFFF) fun a => if a < 2 ^ 42 then 0 else 1) ∧
    ∃ w, w = runCalls (freshWorld (plainSuper 0xFFFFFFFF) fun a => if a < 2 ^ 42 then 0 else 1)
        [.read 0xFFFFFFFD .blk, .read 0xFFFFFFFE .blk] ∧
      (w.readBlock 0 .blk).1 = true ∧ (w.line (0 % kBlkCacheN)).torn = false ∧
      (w.readBlock 0 .blk).2.mem.buf .blk 0 ≠ (w.readBlock 0 .blk).2.disk (0 * 1024 + 0) :=
  ⟨fresh_freshWorld (accepted_plainSuper (by decide)) _, _, rfl, by decide +kernel,
    by decide +kernel, by decide +kernel⟩

end IndexOS.Ext2
