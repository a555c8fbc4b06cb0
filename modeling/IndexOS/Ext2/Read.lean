import IndexOS.Ext2.Basic

/-!
# The read side of the driver

The functions of `src/index/ext2.cpp` that locate inodes, map the blocks of a file, search
directories, resolve paths and list a directory, in the order of the source.

A C string handed to the driver is a list of bytes without a NUL.  `dir_lookup` compares a name with
an on-disk name byte by byte and may read a few bytes behind the NUL of its argument when a
directory entry holds a NUL; those bytes of the local array are taken to be zero.

Loops over the blocks of a directory stop when `lbn * bs` reaches the size, computed in 32 bits; for
a directory of nearly 2 ^ 32 bytes they do not stop.  They are given 2 ^ 32 turns and spin after
that.
-/

set_option autoImplicit false

namespace IndexOS.Ext2

open Interaction LittleEndian
open Testament (CString cstr slash)

/-- Enough turns for every loop over 32-bit block numbers that ends. -/
def turns : Nat := 2 ^ 32

/-! ## Group descriptors and inodes -/

/-- Where the descriptor of group `g` is: its block and the offset in it. -/
def gdSlot (g : Nat) : Driver (Nat × Nat) := do
  let sb ← getSb
  let byte := sb.gdBlock * sb.blockSize + g * 32 % 2 ^ 32
  let blk ← udiv byte sb.blockSize
  let off ← umod byte sb.blockSize
  return (blk % 2 ^ 32, off)

/-- `read_gd`: the 32 bytes of the descriptor. -/
def readGd (g : Nat) : Driver (Option Buf) := do
  let (blk, off) ← gdSlot g
  if ← readBlock blk .blk then
    let gd ← slice .blk off 32
    return some gd
  else return none

/-- Where inode `ino` is, as `read_inode` and `write_inode` compute it. -/
def inodeSlot (ino : Nat) : Driver (Option (Nat × Nat)) := do
  let sb ← getSb
  let grp ← udiv ((ino + 2 ^ 32 - 1) % 2 ^ 32) sb.inodesPerGroup
  let idx ← umod ((ino + 2 ^ 32 - 1) % 2 ^ 32) sb.inodesPerGroup
  match ← readGd grp with
  | none => return none
  | some gd =>
    let byte := rd32 gd 8 * sb.blockSize + idx * sb.inodeSize
    let blk ← udiv byte sb.blockSize
    let off ← umod byte sb.blockSize
    return some (blk % 2 ^ 32, off)

/-- `read_inode`: bring inode `ino` into `g_inode`. -/
def readInode (ino : Nat) : Driver Bool := do
  if ino = 0 then return false
  else
    match ← inodeSlot ino with
    | none => return false
    | some (blk, off) =>
      if ← readBlock blk .blk then
        let sb ← getSb
        let n := if sb.inodeSize < 256 then sb.inodeSize else 256
        let bytes ← slice .blk off n
        blit .inode 0 bytes n
        return true
      else return false

/-- An entry of the table in block `b`, read into `tab`; 0 if there is no table. -/
def tableEntry (b : Nat) (tab : Scratch) (i : Nat) : Driver Nat := do
  if b = 0 then return 0
  else if ← readBlock b tab then peek32 tab (i * 4)
  else return 0

/-- `map_block`: the block that holds block `lbn` of the file in `g_inode`, 0 for a hole. -/
def mapBlock (lbn : Nat) : Driver Nat := do
  let per := (← getSb).blockSize / 4
  if lbn < 12 then peek32 .inode (40 + lbn * 4)
  else
    let lbn := lbn - 12
    if lbn < per then
      let ind ← peek32 .inode (40 + 12 * 4)
      tableEntry ind .ind lbn
    else
      let lbn := lbn - per
      if lbn < per * per then
        let dind ← peek32 .inode (40 + 13 * 4)
        let ti ← udiv lbn per
        let mid ← tableEntry dind .ind2 ti
        let li ← umod lbn per
        tableEntry mid .ind li
      else
        let lbn := lbn - per * per
        if lbn < per * per * per then
          let tind ← peek32 .inode (40 + 14 * 4)
          let ai ← udiv lbn (per * per)
          let dind ← tableEntry tind .ind2 ai
          let q ← udiv lbn per
          let bi ← umod q per
          let mid ← tableEntry dind .ind2 bi
          let ci ← umod lbn per
          tableEntry mid .ind ci
        else return 0

def inodeMode : Driver Nat := peek16 .inode 0

/-- `inode_size()` -/
def inodeBytes : Driver Nat := peek32 .inode 4

/-- The file type is in the top four bits of the mode. -/
def inodeIsDir : Driver Bool := do return (← inodeMode) / 0x1000 == 0x4
def inodeIsSymlink : Driver Bool := do return (← inodeMode) / 0x1000 == 0xA

/-- `inode_read_symlink`: the target of the symlink in `g_inode`, for an array of `cap` bytes;
`none` is -1. -/
def inodeReadSymlink (cap : Nat) : Driver (Option CString) := do
  if !(← inodeIsSymlink) then return none
  else
    let size ← inodeBytes
    if size = 0 ∨ (size + 1) % 2 ^ 32 > cap then return none
    else if size ≤ 60 then
      let bytes ← slice .inode 40 size
      return some ((List.range size).map bytes)
    else
      let pb ← mapBlock 0
      if pb = 0 then return none
      else if ← readBlock pb .blk then
        let bs := (← getSb).blockSize
        let lim := if size < bs then size else bs
        -- `size + 1` wraps around for the largest size, and the copy then leaves the array
        if lim + 1 > cap then stop .overrun
        else
          let bytes ← slice .blk 0 lim
          return some ((List.range lim).map bytes)
      else return none

/-! ## Directories -/

/-- The header of the directory record at `off`: inode, record length, name length. -/
def direntAt (off : Nat) : Driver (Nat × Nat × Nat) := do
  let ino ← peek32 .blk off
  let len ← peek16 .blk (off + 4)
  let nlen ← peek .blk (off + 6)
  return (ino, len, nlen)

/-- Do the `n` bytes of `g_blk` from `off + i` on continue `name` from `i` on? -/
def nameMatches (name : CString) (off : Nat) : Nat → Nat → Driver Bool
  | 0, _ => return true
  | n + 1, i => do
    if (← peek .blk (off + i)) = (name.getD i 0).toNat then nameMatches name off n (i + 1)
    else return false

/-- The loops of `dir_lookup`, `dir_is_empty`, `add_dirent` and `remove_dirent` over the blocks of a
directory of `size` bytes: `body` sees each block that can be read, in `g_blk`, until it has an
answer. -/
def eachDirBlock {α : Type} (size : Nat) (body : Nat → Driver (Option α)) :
    Nat → Nat → Driver (Option α)
  | 0, _ => stop .spin
  | fuel + 1, lbn => do
    if lbn * (← getSb).blockSize % 2 ^ 32 < size then
      let pb ← mapBlock lbn
      if pb = 0 then eachDirBlock size body fuel ((lbn + 1) % 2 ^ 32)
      else if ← readBlock pb .blk then
        match ← body pb with
        | some r => return some r
        | none => eachDirBlock size body fuel ((lbn + 1) % 2 ^ 32)
      else eachDirBlock size body fuel ((lbn + 1) % 2 ^ 32)
    else return none

/-- The record loop of `dir_lookup`. -/
def lookupScan (name : CString) : Nat → Nat → Driver (Option Nat)
  | 0, _ => stop .spin
  | fuel + 1, off => do
    let bs := (← getSb).blockSize
    if off + 8 ≤ bs then
      let (ino, len, nlen) ← direntAt off
      if len = 0 then return none
      else if off + 8 + nlen > bs ∨ len < 8 + nlen then return none
      else
        let found ← (if ino = 0 then pure false else nameMatches name (off + 8) nlen 0)
        -- `name[nlen] == 0`: the name ends where the record's name does
        if found && decide (name.getD nlen 0 = 0) then return some ino
        else lookupScan name fuel (off + len)
    else return none

/-- `dir_lookup`: the inode `name` names in the directory in `g_inode`, or 0. -/
def dirLookup (name : CString) : Driver Nat := do
  let size ← inodeBytes
  let bs := (← getSb).blockSize
  match ← eachDirBlock size (fun _ => lookupScan name (bs + 1) 0) turns 0 with
  | some ino => return ino
  | none => return 0

/-- Is the name of `nlen` bytes at `off` a dot, or two dots? -/
def isDots (off nlen : Nat) : Driver Bool := do
  if nlen = 1 then return (← peek .blk off) == 46
  else if nlen = 2 then
    if (← peek .blk off) = 46 then return (← peek .blk (off + 1)) == 46 else return false
  else return false

/-- The record loop of `dir_is_empty`; it has an answer when it meets an entry. -/
def emptyScan : Nat → Nat → Driver (Option Unit)
  | 0, _ => stop .spin
  | fuel + 1, off => do
    let bs := (← getSb).blockSize
    if off + 8 ≤ bs then
      let (ino, len, nlen) ← direntAt off
      if len = 0 then return none
      else if off + 8 + nlen > bs ∨ len < 8 + nlen then return none
      else
        let dots ← (if ino = 0 then pure true else isDots (off + 8) nlen)
        if dots then emptyScan fuel (off + len) else return some ()
    else return none

/-- `dir_is_empty` -/
def dirIsEmpty : Driver Bool := do
  let size ← inodeBytes
  let bs := (← getSb).blockSize
  return (← eachDirBlock size (fun _ => emptyScan (bs + 1) 0) turns 0).isNone

/-! ## Paths -/

def dropSlashes (p : CString) : CString := p.dropWhile (· == slash)

/-- The next component of a path: at most 255 bytes, what fits into `comp`. -/
def nextComp (p : CString) : CString := (p.takeWhile (· != slash)).take 255

/-- `newp`: the target of a symlink and what is left of the path, in 512 bytes.  As a C string it
ends at the first NUL. -/
def rebuildPath (target rest : CString) : CString :=
  let t := target.take 511
  let full :=
    if rest = [] then t
    else
      let t' := if t ≠ [] ∧ t.getLast? ≠ some slash ∧ t.length + 1 < 512 then t ++ [slash] else t
      t' ++ rest.take (511 - t'.length)
  full.takeWhile (· != 0)

/-- The loop of `resolve_from` over the components of `p`, which does not start with a slash;
`again` restarts the walk at a symlink's target. -/
def walkPath (again : Nat → CString → Driver Nat) (nofollowLast : Bool) :
    Nat → Nat → CString → Driver Nat
  | _, parent, [] => return parent
  | 0, _, _ :: _ => stop .spin
  | fuel + 1, parent, p => do
    let comp := nextComp p
    let rest := dropSlashes (p.drop comp.length)
    if !(← inodeIsDir) then return 0
    else
      let next ← dirLookup comp
      if next = 0 then return 0
      else if !(← readInode next) then return 0
      else if (← inodeIsSymlink) && !(rest.isEmpty && nofollowLast) then
        match ← inodeReadSymlink 256 with
        | none => return 0
        | some target =>
          let restart := if target.head? = some slash then 2 else parent
          again restart (rebuildPath target rest)
      else walkPath again nofollowLast fuel next rest

/-- `resolve_from` with `9 - depth` levels of symlinks left. -/
def resolveFrom : Nat → Nat → CString → Bool → Driver Nat
  | 0, _, _, _ => return 0
  | levels + 1, start, path, nofollowLast => do
    if !(← readInode start) then return 0
    else
      let parent := if path.head? = some slash then 2 else start
      if !(← readInode parent) then return 0
      else
        walkPath (fun restart newp => resolveFrom levels restart newp nofollowLast) nofollowLast
          path.length parent (dropSlashes path)

def kDentryN : Nat := 128

/-- `dentry_get` -/
def Mem.dentryGet (m : Mem) (path : CString) : Nat :=
  match (List.range kDentryN).find? fun i => (m.dentry i).valid && (m.dentry i).path == path with
  | some i => (m.dentry i).ino
  | none => 0

/-- `dentry_put`: paths of 192 bytes and more are not cached. -/
def Mem.dentryPut (m : Mem) (path : CString) (ino : Nat) : Mem :=
  if path.length < 192 then
    let line : DentryLine := { path := path, ino := ino, valid := true }
    { m with
      dentry := Function.update m.dentry (m.dentryClock % kDentryN) line
      dentryClock := (m.dentryClock + 1) % 2 ^ 32 }
  else m

variable (path : CString)

/-- The position of the last slash. -/
def lastSlash : Option Nat := (List.range path.length).reverse.find? fun i =>
  path.getD i 0 == slash

/-- The parent shortcut of `resolve`: the leaf is looked up in a cached parent directory. -/
def resolveShortcut : Driver (Option Nat) := do
  match lastSlash path with
  | none => return none
  | some pos =>
    if pos = 0 ∨ pos ≥ 256 then return none
    else
      let leaf := (path.drop (pos + 1)).take 255
      let pino := (← getMem).dentryGet (path.take pos)
      if pino = 0 ∨ leaf = [] then return none
      else if !(← readInode pino) then return none
      else if !(← inodeIsDir) then return none
      else
        let lino ← dirLookup leaf
        if lino = 0 then return none
        else if !(← readInode lino) then return none
        else if ← inodeIsSymlink then return none
        else
          modifyMem fun m => m.dentryPut path lino
          return some lino

/-- `resolve` -/
def resolve : Driver Nat := do
  let hit := (← getMem).dentryGet path
  let ok ← (if hit = 0 then pure false else readInode hit)
  if ok then return hit
  else
    match ← resolveShortcut path with
    | some lino => return lino
    | none =>
      let ino ← resolveFrom 9 2 path false
      when (ino ≠ 0) (modifyMem fun m => m.dentryPut path ino)
      return ino

/-! ## Listing directories -/

/-- What `ext2_list_dir` fills in of a `LateranEntry`. -/
structure Entry where
  name : List UInt8
  isDir : Bool
  size : Nat
  uid : Nat
  gid : Nat
  mode : Nat
  atime : Nat
  ctime : Nat
  mtime : Nat

/-- The record loop of the first pass of `ext2_list_dir`: names and inode numbers. -/
def listScan (max : Nat) : Nat → Nat → List (List UInt8 × Nat) → Driver (List (List UInt8 × Nat))
  | 0, _, _ => stop .spin
  | fuel + 1, off, acc => do
    let bs := (← getSb).blockSize
    if off + 8 ≤ bs ∧ acc.length < max then
      let (ino, len, nlen) ← direntAt off
      if len = 0 then return acc
      else if ino ≠ 0 ∧ nlen > 0 then
        let bytes ← slice .blk (off + 8) nlen
        listScan max fuel (off + len) (acc ++ [((List.range nlen).map bytes, ino)])
      else listScan max fuel (off + len) acc
    else return acc

/-- The first pass over the blocks of the directory. -/
def listBlocks (size max : Nat) :
    Nat → Nat → List (List UInt8 × Nat) → Driver (List (List UInt8 × Nat))
  | 0, _, _ => stop .spin
  | fuel + 1, lbn, acc => do
    let bs := (← getSb).blockSize
    if lbn * bs % 2 ^ 32 < size ∧ acc.length < max then
      let pb ← mapBlock lbn
      if pb = 0 then listBlocks size max fuel ((lbn + 1) % 2 ^ 32) acc
      else if ← readBlock pb .blk then
        let acc ← listScan max (bs + 1) 0 acc
        listBlocks size max fuel ((lbn + 1) % 2 ^ 32) acc
      else listBlocks size max fuel ((lbn + 1) % 2 ^ 32) acc
    else return acc

/-- The second pass: the metadata of one entry. -/
def listEntry (name : List UInt8) (ino : Nat) : Driver Entry := do
  if ← readInode ino then
    let isDir ← inodeIsDir
    let size ← inodeBytes
    let uid ← peek16 .inode 2
    let gid ← peek16 .inode 24
    let mode ← inodeMode
    let atime ← peek32 .inode 8
    let ctime ← peek32 .inode 12
    let mtime ← peek32 .inode 16
    return ⟨name, isDir, size, uid, gid, mode, atime, ctime, mtime⟩
  else return ⟨name, false, 0, 0, 0, 0o100644, 0, 0, 0⟩

def listEntries : List (List UInt8 × Nat) → Driver (List Entry)
  | [] => return []
  | (name, ino) :: rest => do
    let e ← listEntry name ino
    let es ← listEntries rest
    return e :: es

/-- Bring the directory to be listed into `g_inode`; the empty path is the root. -/
def listTarget : Driver Bool := do
  if dropSlashes path = [] then readInode 2
  else
    let ino ← resolve path
    return ino != 0

/-- `ext2_list_dir`: the entries written to `out`. -/
def ext2ListDir (max : Nat) : Driver (List Entry) := do
  if !(← getSb).mounted then return []
  else
    if !(← listTarget path) then return []
    else if !(← inodeIsDir) then return []
    else
      let size ← inodeBytes
      let names ← listBlocks size max turns 0 []
      listEntries names

end IndexOS.Ext2
