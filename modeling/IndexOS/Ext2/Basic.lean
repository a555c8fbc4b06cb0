import IndexOS.Lib.Interaction
import IndexOS.Lib.LittleEndian
import IndexOS.Testament.Tmpfs

/-!
# The ext2 driver: its memory and its commands

`src/index/ext2.cpp` works on a handful of globals: the superblock fields it keeps from the mount,
six scratch buffers, a cache of resolved paths and the hint of the block allocator.  They make up
`Mem`.  Blocks reach the scratch buffers through `read_block` and leave them through `write_block`;
the superblock's two sectors are read and written directly.

The functions of the driver are programs (`Prog`) over these commands, so that they can be run
behind the block cache as well as on the bare disk.  Every access to a scratch buffer is checked
against its length, and every division against a zero divisor: where the source would leave the
buffer or divide by zero the program stops with `Stop.fault`.  A store outside an array on the stack
stops it with `Stop.overrun`, a loop that does not end with `Stop.spin`.

Machine integers are natural numbers; where the source can overflow there is an explicit
`% 2 ^ 32`.
-/

set_option autoImplicit false

namespace IndexOS.Ext2

open Interaction LittleEndian
open Testament (CString cstr slash)

def kSector : Nat := 512
def kMaxBlock : Nat := 4096

/-- `Super`, what `ext2_mount` keeps of the superblock. -/
structure Super where
  mounted : Bool := false
  blockSize : Nat := 0
  inodeSize : Nat := 0
  inodesPerGroup : Nat := 0
  blocksPerGroup : Nat := 0
  firstDataBlock : Nat := 0
  inodeCount : Nat := 0
  blockCount : Nat := 0
  groupCount : Nat := 0
  gdBlock : Nat := 0
  deriving DecidableEq

/-- The scratch buffers `g_blk`, `g_ind`, `g_ind2`, `g_ind3`, `g_bmp` and `g_inode`. -/
inductive Scratch
  | blk
  | ind
  | ind2
  | ind3
  | bmp
  | inode
  deriving DecidableEq

/-- The length of a scratch buffer. -/
def Scratch.size : Scratch → Nat
  | .inode => 256
  | _ => kMaxBlock

/-- `DentryLine` -/
structure DentryLine where
  path : CString := []
  ino : Nat := 0
  valid : Bool := false

/-- The globals of the driver, and the time it reads. -/
structure Mem where
  sb : Super
  buf : Scratch → Buf
  dentry : Nat → DentryLine
  dentryClock : Nat
  allocHint : Nat
  /-- `now_epoch_u32()` -/
  now : Nat

def Mem.setBuf (m : Mem) (b : Scratch) (p : Buf) : Mem :=
    { m with buf := Function.update m.buf b p }

@[simp] theorem Mem.setBuf_self (m : Mem) (b : Scratch) (p : Buf) : (m.setBuf b p).buf b = p :=
  Function.update_self ..

@[simp] theorem Mem.setBuf_of_ne (m : Mem) {b b' : Scratch} (p : Buf) (h : b' ≠ b) :
    (m.setBuf b p).buf b' = m.buf b' := Function.update_of_ne h ..

/-- Why a program stops before its end. -/
inductive Stop
  /-- An access outside a scratch buffer, or a division by zero. -/
  | fault
  /-- A store outside an array on the stack. -/
  | overrun
  /-- A loop without an end. -/
  | spin
  /-- A command that a disk at rest does not answer (`still`); no function stops for it. -/
  | unserved
  deriving DecidableEq

/-- What the driver can do. -/
inductive Cmd
  /-- `read_block(b, dst)` -/
  | readBlock (b : Nat) (dst : Scratch)
  /-- `write_block(b, src)` -/
  | writeBlock (b : Nat) (src : Scratch)
  /-- `underline_read` of one sector into a local buffer -/
  | readSector (n : Nat)
  /-- `underline_write` of one sector -/
  | writeSector (n : Nat) (bytes : Buf)
  | get
  | set (m : Mem)
  | stop (why : Stop)

/-- What comes back. -/
def Cmd.Ans : Cmd → Type
  | .readBlock _ _ => Bool
  | .writeBlock _ _ => Bool
  | .readSector _ => Option Buf
  | .writeSector _ _ => Bool
  | .get => Mem
  | .set _ => Unit
  | .stop _ => Empty

/-- A function of the driver. -/
abbrev Driver (α : Type) := Prog Cmd Cmd.Ans α

variable (b : Scratch)

section Primitives

variable {α : Type}

def readBlock (b : Nat) (dst : Scratch) : Driver Bool :=
    Prog.command (A := Cmd.Ans) (Cmd.readBlock b dst)
def writeBlock (b : Nat) (src : Scratch) : Driver Bool :=
    Prog.command (A := Cmd.Ans) (Cmd.writeBlock b src)
def readSector (n : Nat) : Driver (Option Buf) := Prog.command (A := Cmd.Ans) (Cmd.readSector n)
def writeSector (n : Nat) (bytes : Buf) : Driver Bool :=
  Prog.command (A := Cmd.Ans) (Cmd.writeSector n bytes)
def getMem : Driver Mem := Prog.command (A := Cmd.Ans) Cmd.get
def setMem (m : Mem) : Driver Unit := Prog.command (A := Cmd.Ans) (Cmd.set m)
def stop (why : Stop) : Driver α := .ask (.stop why) fun e => nomatch (e : Empty)

/-- `g_sb` -/
def getSb : Driver Super := do return (← getMem).sb

def modifyMem (f : Mem → Mem) : Driver Unit := do setMem (f (← getMem))

/-- `if (c) act;` -/
def when (c : Prop) [Decidable c] (act : Driver Unit) : Driver Unit := if c then act else pure ()

/-- Go on only if the `n` bytes of `b` from `i` on exist. -/
def checkRange (i n : Nat) : Driver Unit :=
  if i + n ≤ b.size then pure () else stop .fault

/-- `b[i]` -/
def peek (i : Nat) : Driver Nat := do
  checkRange b i 1
  return ((← getMem).buf b i).toNat

/-- `rd16(&b[i])` -/
def peek16 (i : Nat) : Driver Nat := do
  checkRange b i 2
  return rd16 ((← getMem).buf b) i

/-- `rd32(&b[i])` -/
def peek32 (i : Nat) : Driver Nat := do
  checkRange b i 4
  return rd32 ((← getMem).buf b) i

/-- `b[i] = v` -/
def poke (i v : Nat) : Driver Unit := do
  checkRange b i 1
  modifyMem fun m => m.setBuf b (Function.update (m.buf b) i (UInt8.ofNat v))

/-- `wr16(&b[i], v)` -/
def poke16 (i v : Nat) : Driver Unit := do
  checkRange b i 2
  modifyMem fun m => m.setBuf b (wr16 (m.buf b) i v)

/-- `wr32(&b[i], v)` -/
def poke32 (i v : Nat) : Driver Unit := do
  checkRange b i 4
  modifyMem fun m => m.setBuf b (wr32 (m.buf b) i v)

/-- `for (k = 0; k < n; ++k) out[k] = b[i + k]`, for a local buffer `out`. -/
def slice (i n : Nat) : Driver Buf := do
  if n = 0 then return fun _ => 0
  else
    checkRange b i n
    let p := (← getMem).buf b
    return fun k => p (i + k)

/-- `for (k = 0; k < n; ++k) b[i + k] = bytes[k]` -/
def blit (i : Nat) (bytes : Buf) (n : Nat) : Driver Unit := do
  if n = 0 then return ()
  else
    checkRange b i n
    modifyMem fun m => m.setBuf b (copyInto (m.buf b) i bytes 0 n)

/-- `for (k = 0; k < n; ++k) b[k] = 0` -/
def clear (n : Nat) : Driver Unit := blit b 0 (fun _ => 0) n

/-- `a / b` -/
def udiv (a b : Nat) : Driver Nat := if b = 0 then stop .fault else pure (a / b)

/-- `a % b` -/
def umod (a b : Nat) : Driver Nat := if b = 0 then stop .fault else pure (a % b)

end Primitives

/-! ## The mount -/

/-- The checks of `ext2_mount` on the 1024 bytes of the superblock, and what it keeps of them.  The
shift by a 32-bit amount is the one of the processor, which looks at its low five bits. -/
def acceptSuper (sb : Buf) : Option Super :=
  if rd16 sb 56 ≠ 0xEF53 then none
  else
    let blockCount := rd32 sb 4
    let firstDataBlock := rd32 sb 20
    let blockSize := 1024 * 2 ^ (rd32 sb 24 % 32) % 2 ^ 32
    let blocksPerGroup := rd32 sb 32
    let inodesPerGroup := rd32 sb 40
    if blockSize = 0 ∨ blockSize > kMaxBlock ∨ blocksPerGroup = 0 ∨ inodesPerGroup = 0 then none
    else some {
      mounted := true
      blockSize := blockSize
      inodeSize := if rd16 sb 88 = 0 then 128 else rd16 sb 88
      inodesPerGroup := inodesPerGroup
      blocksPerGroup := blocksPerGroup
      firstDataBlock := firstDataBlock
      inodeCount := rd32 sb 0
      blockCount := blockCount
      groupCount := (blockCount + 2 ^ 32 - firstDataBlock + blocksPerGroup - 1) % 2 ^ 32 /
        blocksPerGroup
      gdBlock := (firstDataBlock + 1) % 2 ^ 32 }

/-- The superblock, in sectors 2 and 3; `none` if one of them cannot be read. -/
def readSuper : Driver (Option Buf) := do
  match ← readSector 2 with
  | none => return none
  | some lo =>
    match ← readSector 3 with
    | none => return none
    | some hi => return some fun i => if i < kSector then lo i else hi (i - kSector)

/-- What the checks of the mount leave of the superblock's fields. -/
structure Super.Accepted (s : Super) : Prop where
  mounted : s.mounted = true
  blockSize : s.blockSize = 1024 ∨ s.blockSize = 2048 ∨ s.blockSize = 4096
  inodeSize : 0 < s.inodeSize ∧ s.inodeSize < 2 ^ 16
  inodesPerGroup : 0 < s.inodesPerGroup ∧ s.inodesPerGroup < 2 ^ 32
  blocksPerGroup : 0 < s.blocksPerGroup ∧ s.blocksPerGroup < 2 ^ 32
  firstDataBlock : s.firstDataBlock < 2 ^ 32
  inodeCount : s.inodeCount < 2 ^ 32
  blockCount : s.blockCount < 2 ^ 32
  groupCount : s.groupCount =
    (s.blockCount + 2 ^ 32 - s.firstDataBlock + s.blocksPerGroup - 1) % 2 ^ 32 / s.blocksPerGroup
  gdBlock : s.gdBlock = (s.firstDataBlock + 1) % 2 ^ 32

/-- Only three shifts give a block size the driver supports. -/
theorem blockSize_of_shift {k : Nat} (hk : k < 32) (h0 : 1024 * 2 ^ k % 2 ^ 32 ≠ 0)
    (hmax : 1024 * 2 ^ k % 2 ^ 32 ≤ kMaxBlock) :
    1024 * 2 ^ k % 2 ^ 32 = 1024 ∨ 1024 * 2 ^ k % 2 ^ 32 = 2048 ∨
      1024 * 2 ^ k % 2 ^ 32 = 4096 := by
  revert k
  decide

theorem acceptSuper_some {sb : Buf} {s : Super} (h : acceptSuper sb = some s) : s.Accepted := by
  rw [acceptSuper] at h
  split at h
  · cases h
  simp only at h
  split at h
  · cases h
  rename_i hok
  simp only [not_or, Nat.not_lt] at hok
  obtain ⟨h0, hmax, hb, hi⟩ := hok
  cases h
  have hsize := rd16_lt sb 88
  refine ⟨rfl, blockSize_of_shift (Nat.mod_lt _ (by omega)) h0 hmax, ?_,
    ⟨Nat.pos_of_ne_zero hi, rd32_lt ..⟩, ⟨Nat.pos_of_ne_zero hb, rd32_lt ..⟩, rd32_lt ..,
    rd32_lt ..,
    rd32_lt .., rfl, rfl⟩
  simp only
  split <;> omega

end IndexOS.Ext2
