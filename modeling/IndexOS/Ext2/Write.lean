import IndexOS.Ext2.Read

/-!
# The write side of the driver

The allocators and the directory editing functions, in the order of the source.  Which scratch
buffer holds what is kept exactly as in the source: `write_gd` and `write_inode` go through
`g_ind`, `read_gd` through `g_blk`, the allocators keep their bitmap in `g_bmp`.
-/

set_option autoImplicit false

namespace IndexOS.Ext2

open Interaction LittleEndian
open Testament (CString cstr slash)

def roundup4 (x : Nat) : Nat := (x + 3) / 4 * 4

/-! ## Counters and descriptors -/

/-- `sb_adjust`; the differences are 32-bit values. -/
def sbAdjust (dblocks dinodes : Nat) : Driver Unit := do
  match ← readSuper with
  | none => return ()
  | some sb =>
    let sb := wr32 sb 12 ((rd32 sb 12 + dblocks) % 2 ^ 32)
    let sb := wr32 sb 16 ((rd32 sb 16 + dinodes) % 2 ^ 32)
    let _ ← writeSector 2 sb
    let _ ← writeSector 3 fun i => sb (kSector + i)
    return ()

/-- -1 as a 32-bit difference. -/
def minusOne : Nat := 2 ^ 32 - 1

/-- `write_gd` -/
def writeGd (g : Nat) (gd : Buf) : Driver Bool := do
  let (blk, off) ← gdSlot g
  if ← readBlock blk .ind then
    blit .ind off gd 32
    writeBlock blk .ind
  else return false

/-- `write_inode` -/
def writeInode (ino : Nat) : Driver Bool := do
  match ← inodeSlot ino with
  | none => return false
  | some (blk, off) =>
    if ← readBlock blk .ind then
      let n := (← getSb).inodeSize
      let bytes ← slice .inode 0 n
      blit .ind off bytes n
      writeBlock blk .ind
    else return false

/-! ## The allocators -/

/-- Is bit `i` of the bitmap in `g_bmp` set? -/
def bmpTest (i : Nat) : Driver Bool := do return (← peek .bmp (i / 8)).testBit (i % 8)

/-- `g_bmp[i / 8] |= 1u << (i % 8)` -/
def bmpSet (i : Nat) : Driver Unit := do
  let byte ← peek .bmp (i / 8)
  poke .bmp (i / 8) (byte ||| 2 ^ (i % 8))

/-- `g_bmp[i / 8] &= ~(1u << (i % 8))` -/
def bmpClear (i : Nat) : Driver Unit := do
  let byte ← peek .bmp (i / 8)
  poke .bmp (i / 8) (byte &&& (255 ^^^ 2 ^ (i % 8)))

/-- The bitmap loop of `alloc_block` from bit `i` on, `n` bits being left; `none` if it finds no
clear bit, otherwise what `alloc_block` returns. -/
def allocScan (g bbmp : Nat) (gd : Buf) : Nat → Nat → Driver (Option Nat)
  | 0, _ => return none
  | n + 1, i => do
    let sb ← getSb
    let bno := (sb.firstDataBlock + g * sb.blocksPerGroup + i) % 2 ^ 32
    if bno ≥ sb.blockCount then return none
    else if ← bmpTest i then allocScan g bbmp gd n (i + 1)
    else
      bmpSet i
      if ← writeBlock bbmp .bmp then
        let _ ← writeGd g (wr16 gd 12 ((rd16 gd 12 + 2 ^ 16 - 1) % 2 ^ 16))
        sbAdjust minusOne 0
        -- the new block is zeroed through the buffer of the bitmap, which is on disk by now
        clear .bmp sb.blockSize
        let _ ← writeBlock bno .bmp
        modifyMem fun m => { m with allocHint := g }
        return some bno
      else return some 0

/-- The group loop of `alloc_block`, `n` groups being left. -/
def allocGroups : Nat → Nat → Driver Nat
  | 0, _ => return 0
  | n + 1, s => do
    let m ← getMem
    let g ← umod ((m.allocHint + s) % 2 ^ 32) m.sb.groupCount
    match ← readGd g with
    | none => return 0
    | some gd =>
      if rd16 gd 12 = 0 then allocGroups n (s + 1)
      else if ← readBlock (rd32 gd 0) .bmp then
        match ← allocScan g (rd32 gd 0) gd m.sb.blocksPerGroup 0 with
        | some bno => return bno
        | none => allocGroups n (s + 1)
      else return 0

/-- `alloc_block`: the block, or 0. -/
def allocBlock : Driver Nat := do allocGroups (← getSb).groupCount 0

/-- `free_block` -/
def freeBlock (bno : Nat) : Driver Unit := do
  let sb ← getSb
  if bno < sb.firstDataBlock then return ()
  else
    let rel := bno - sb.firstDataBlock
    let g ← udiv rel sb.blocksPerGroup
    let i ← umod rel sb.blocksPerGroup
    match ← readGd g with
    | none => return ()
    | some gd =>
      if ← readBlock (rd32 gd 0) .bmp then
        if ← bmpTest i then
          bmpClear i
          let _ ← writeBlock (rd32 gd 0) .bmp
          let _ ← writeGd g (wr16 gd 12 ((rd16 gd 12 + 1) % 2 ^ 16))
          sbAdjust 1 0
        else return ()
      else return ()

/-- The bitmap loop of `alloc_inode`. -/
def allocInodeScan (g ibmp : Nat) (gd : Buf) (isDir : Bool) : Nat → Nat → Driver (Option Nat)
  | 0, _ => return none
  | n + 1, i => do
    if ← bmpTest i then allocInodeScan g ibmp gd isDir n (i + 1)
    else
      bmpSet i
      if ← writeBlock ibmp .bmp then
        let gd := wr16 gd 14 ((rd16 gd 14 + 2 ^ 16 - 1) % 2 ^ 16)
        let gd := if isDir then wr16 gd 16 ((rd16 gd 16 + 1) % 2 ^ 16) else gd
        let _ ← writeGd g gd
        sbAdjust 0 minusOne
        return some ((g * (← getSb).inodesPerGroup + i + 1) % 2 ^ 32)
      else return some 0

/-- The group loop of `alloc_inode`, from group `g` on, `n` groups being left. -/
def allocInodeGroups (isDir : Bool) : Nat → Nat → Driver Nat
  | 0, _ => return 0
  | n + 1, g => do
    match ← readGd g with
    | none => return 0
    | some gd =>
      if rd16 gd 14 = 0 then allocInodeGroups isDir n (g + 1)
      else if ← readBlock (rd32 gd 4) .bmp then
        match ← allocInodeScan g (rd32 gd 4) gd isDir (← getSb).inodesPerGroup 0 with
        | some ino => return ino
        | none => allocInodeGroups isDir n (g + 1)
      else return 0

/-- `alloc_inode`: the inode, or 0. -/
def allocInode (isDir : Bool) : Driver Nat := do
  allocInodeGroups isDir (← getSb).groupCount 0

/-- `free_inode` -/
def freeInode (ino : Nat) (wasDir : Bool) : Driver Unit := do
  let sb ← getSb
  let g ← udiv ((ino + 2 ^ 32 - 1) % 2 ^ 32) sb.inodesPerGroup
  let i ← umod ((ino + 2 ^ 32 - 1) % 2 ^ 32) sb.inodesPerGroup
  match ← readGd g with
  | none => return ()
  | some gd =>
    if ← readBlock (rd32 gd 4) .bmp then
      if ← bmpTest i then
        bmpClear i
        let _ ← writeBlock (rd32 gd 4) .bmp
        let gd := wr16 gd 14 ((rd16 gd 14 + 1) % 2 ^ 16)
        let gd := if wasDir ∧ rd16 gd 16 > 0 then wr16 gd 16 (rd16 gd 16 - 1) else gd
        let _ ← writeGd g gd
        sbAdjust 0 1
      else return ()
    else return ()

/-! ## Directories -/

/-- Put a record into `g_blk`: inode, length, name length, type and name. -/
def putDirent (off ino len : Nat) (name : CString) (type : Nat) : Driver Unit := do
  poke32 .blk off ino
  poke16 .blk (off + 4) len
  poke .blk (off + 6) name.length
  poke .blk (off + 7) type
  blit .blk (off + 8) (fun i => name.getD i 0) name.length

/-- Put a record into an unused record at `off`, or behind the `used` bytes of one that is in
use. -/
def fillSlack (off used slack len eIno ino : Nat) (name : CString) (type : Nat) : Driver Unit := do
  if eIno = 0 then putDirent off ino len name type
  else
    poke16 .blk (off + 4) used
    putDirent (off + used) ino (slack % 2 ^ 16) name type

/-- The record loop of `add_dirent` in the block `pb`. -/
def addScan (name : CString) (ino type pb : Nat) : Nat → Nat → Driver (Option Bool)
  | 0, _ => stop .spin
  | fuel + 1, off => do
    let bs := (← getSb).blockSize
    if off + 8 ≤ bs then
      let (eIno, len, en) ← direntAt off
      if len = 0 then return none
      else
        let used := if eIno = 0 then 0 else roundup4 (8 + en)
        -- unsigned: a record shorter than its name wraps around to a large slack
        let slack := (len + 2 ^ 32 - used) % 2 ^ 32
        if slack ≥ roundup4 (8 + name.length) then
          fillSlack off used slack len eIno ino name type
          return some (← writeBlock pb .blk)
        else addScan name ino type pb fuel (off + len)
    else return none

/-- `add_dirent` -/
def addDirent (dirIno : Nat) (name : CString) (ino type : Nat) : Driver Bool := do
  if !(← readInode dirIno) then return false
  else
    let bs := (← getSb).blockSize
    let dsize ← inodeBytes
    match ← eachDirBlock dsize (fun pb => addScan name ino type pb (bs + 1) 0) turns 0 with
    | some r => return r
    | none =>
      -- no slack: append a fresh directory block
      let nb ← allocBlock
      if nb = 0 then return false
      else
        clear .blk bs
        putDirent 0 ino bs name type
        if !(← writeBlock nb .blk) then return false
        else if !(← readInode dirIno) then return false
        else
          let lbn ← udiv dsize bs
          if lbn ≥ 12 then return false
          else
            poke32 .inode (40 + lbn * 4) nb
            poke32 .inode 4 ((dsize + bs) % 2 ^ 32)
            let iblocks ← peek32 .inode 28
            poke32 .inode 28 ((iblocks + bs / kSector) % 2 ^ 32)
            writeInode dirIno

/-- Take away the record at `off`: the record before it grows over it, or it becomes unused. -/
def dropRecord (off len : Nat) : Option Nat → Driver Unit
  | some prev => do
    let plen ← peek16 .blk (prev + 4)
    poke16 .blk (prev + 4) ((plen + len) % 2 ^ 16)
  | none => poke32 .blk off 0

/-- The record loop of `remove_dirent` in the block `pb`; `prev` is the record before. -/
def removeScan (leaf : CString) (pb : Nat) : Nat → Nat → Option Nat → Driver (Option Unit)
  | 0, _, _ => stop .spin
  | fuel + 1, off, prev => do
    let bs := (← getSb).blockSize
    if off + 8 ≤ bs then
      let (eIno, len, en) ← direntAt off
      if len = 0 then return none
      else
        let found ←
          (if eIno ≠ 0 ∧ en = leaf.length then nameMatches leaf (off + 8) en 0 else pure false)
        if found then
          dropRecord off len prev
          let _ ← writeBlock pb .blk
          return some ()
        else removeScan leaf pb fuel (off + len) (some off)
    else return none

/-- `remove_dirent` -/
def removeDirent (dirIno : Nat) (leaf : CString) : Driver Bool := do
  if !(← readInode dirIno) then return false
  else
    let bs := (← getSb).blockSize
    let dsize ← inodeBytes
    return (← eachDirBlock dsize (fun pb => removeScan leaf pb (bs + 1) 0 none) turns 0).isSome

end IndexOS.Ext2
