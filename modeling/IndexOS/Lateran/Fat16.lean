import IndexOS.Lib.LittleEndian
import IndexOS.Lib.Traces
import IndexOS.Testament.Tmpfs

/-!
# The FAT16 part of Lateran

When the disk holds no ext2 filesystem, `src/index/lateran.cpp` reads and writes it as FAT16.  A
file or a subdirectory is a chain of clusters; the file allocation table has, for each cluster, the
number of the next one, and there are several copies of it.  A directory is a sequence of slots of
32 bytes, sixteen to a sector: the root directory has a fixed run of sectors, a subdirectory the
sectors of its chain.

* `Layout` — `g_fs` after a successful mount, and the capacity of the device;
* `fatNext`, `fatSet`, `allocCluster`, `freeChain` — the allocation table;
* `dirNthSector`, `dirFind`, `dirFreeSlot`, `resolveParent` — directories and paths;
* `lateranWriteFile`, `lateranUnlink`, `lateranMkdir` — the FAT arms of the entry points.

The device does what it is asked to do, so the returns for a failed transfer are left out, and with
them the buffer `g_sector`: each function reads a sector before it uses its bytes.  The two loops
over the sectors of a directory have no bound in the source; here they have one that no chain
without repetitions reaches.
-/

set_option autoImplicit false

namespace IndexOS.Lateran.Fat16

open Function (update)
open LittleEndian Testament

def kSector : Nat := 512

/-- `g_fs`, as `lateran_mount` accepts it, and `capacity_sectors` of the device. -/
structure Layout where
  sectorsPerCluster : Nat
  reserved : Nat
  numFats : Nat
  rootEntries : Nat
  fatSize : Nat
  capacity : Nat
  sectorsPerCluster_pos : 0 < sectorsPerCluster
  numFats_pos : 0 < numFats
  fatSize_pos : 0 < fatSize
  rootEntries_pos : 0 < rootEntries

namespace Layout

variable (g : Layout)

def fatStart : Nat := g.reserved
def rootStart : Nat := g.reserved + g.numFats * g.fatSize
def rootSectors : Nat := (g.rootEntries * 32 + kSector - 1) / kSector
def dataStart : Nat := g.rootStart + g.rootSectors

/-- `total_clusters` -/
def totalClusters : Nat :=
  if g.capacity ≤ g.dataStart then 0 else (g.capacity - g.dataStart) / g.sectorsPerCluster

/-- `cluster_first_sector` -/
def clusterFirstSector (cluster : Nat) : Nat :=
  g.dataStart + (cluster - 2) * g.sectorsPerCluster

/-- The clusters that `alloc_cluster` looks at are those from 2 up to here. -/
def clusterEnd : Nat := min (g.totalClusters + 2) 0xFFF8

end Layout

/-- The sectors of the disk. -/
abbrev Disk := Nat → Buf

variable (g : Layout)

/-! ## The allocation table -/

variable (d : Disk)

/-- `fat_next` -/
def fatNext (cluster : Nat) : Nat :=
  rd16 (d (g.fatStart + cluster * 2 / kSector)) (cluster * 2 % kSector)

/-- The body of the loop of `fat_set`, for one copy of the table. -/
def fatSetCopy (cluster value : Nat) (d : Disk) (f : Nat) : Disk :=
  let sector := g.fatStart + f * g.fatSize + cluster * 2 / kSector
  update d sector (wr16 (d sector) (cluster * 2 % kSector) value)

/-- `fat_set` -/
def fatSet (cluster value : Nat) : Disk :=
  (List.range g.numFats).foldl (fatSetCopy g cluster value) d

/-- The zeros that `alloc_cluster` writes over a cluster. -/
def zeroCluster (cluster : Nat) : Disk :=
  (List.range g.sectorsPerCluster).foldl
    (fun d s => update d (g.clusterFirstSector cluster + s) fun _ => 0) d

/-- The loop of `alloc_cluster`, with `n` clusters left to look at. -/
def allocFrom (d : Disk) : Nat → Nat → Nat × Disk
  | 0, _ => (0, d)
  | n + 1, c =>
    if fatNext g d c = 0 then (c, zeroCluster g (fatSet g d c 0xFFFF) c) else allocFrom d n (c + 1)

/-- `alloc_cluster`; 0 if there is none. -/
def allocCluster : Nat × Disk := allocFrom g d (g.clusterEnd - 2) 2

/-- `free_chain`, with the rest of its guard. -/
def freeChainLoop : Nat → Disk → Nat → Disk
  | 0, d, _ => d
  | n + 1, d, cluster =>
    if 2 ≤ cluster ∧ cluster < 0xFFF8 then
      freeChainLoop n (fatSet g d cluster 0) (fatNext g d cluster)
    else d

def freeChain (cluster : Nat) : Disk := freeChainLoop g 100000 d cluster

/-! ## Names -/

/-- `up` -/
def up (c : UInt8) : UInt8 := if 0x61 ≤ c ∧ c ≤ 0x7A then c - 0x20 else c

/-- `ci_equal` of two C strings. -/
def ciEqual (a b : CString) : Bool := a.map up = b.map up

/-- A dot and a blank. -/
def dot : UInt8 := 0x2E
def blank : UInt8 := 0x20

/-- `format_83` of the eleven bytes of a name; the C string ends at the first zero. -/
def format83 (raw : List UInt8) : CString :=
  let base := (raw.take 8).takeWhile (· ≠ blank)
  let ext := (raw.drop 8).takeWhile (· ≠ blank)
  (base ++ if ext = [] then [] else dot :: ext).takeWhile (· ≠ 0)

/-- A part of a name, filled up with blanks. -/
def padTo (n : Nat) (s : CString) : List UInt8 :=
  (s.take n).map up ++ List.replicate (n - s.length) blank

/-- `to_83` -/
def to83 (name : CString) : List UInt8 :=
  padTo 8 (name.takeWhile (· ≠ dot)) ++ padTo 3 ((name.dropWhile (· ≠ dot)).drop 1)

/-! ## Directories -/

/-- `DirLoc` -/
structure DirLoc where
  isRoot : Bool := true
  cluster : Nat := 0
  deriving DecidableEq

/-- `n` steps along a chain, as long as they stay inside it. -/
def walkChain (d : Disk) : Nat → Nat → Option Nat
  | 0, c => some c
  | n + 1, c =>
    let c := fatNext g d c
    if c < 2 ∨ c ≥ 0xFFF8 then none else walkChain d n c

/-- `dir_nth_sector` -/
def dirNthSector (loc : DirLoc) (n : Nat) : Option Nat :=
  if loc.isRoot then if n ≥ g.rootSectors then none else some (g.rootStart + n)
  else
    match walkChain g d (n / g.sectorsPerCluster) loc.cluster with
    | none => none
    | some c =>
      if c < 2 ∨ c ≥ 0xFFF8 then none
      else some (g.clusterFirstSector c + n % g.sectorsPerCluster)

/-- The name of the entry at `off` in a sector. -/
def rawName (sector : Buf) (off : Nat) : List UInt8 := (List.range 11).map fun i => sector (off + i)

/-- What the scan of one sector comes to: an offset, the end of the directory, or nothing. -/
inductive Scan
  | hit (off : Nat)
  | ended
  | more

/-- The inner loop of `dir_find` over the slots `es` of a sector. -/
def scanSector (sector : Buf) (name : CString) : List Nat → Scan
  | [] => .more
  | e :: es =>
    let off := e * 32
    let attr := sector (off + 11)
    if sector off = 0x00 then .ended
    else if sector off = 0xE5 then scanSector sector name es
    else if attr = 0x0F ∨ attr &&& 0x08 ≠ 0 then scanSector sector name es
    else if ciEqual (format83 (rawName sector off)) name then .hit off
    else scanSector sector name es

/-- No directory of a volume without cycles has this many sectors. -/
def scanBound : Nat := 0x10000 * g.sectorsPerCluster + g.rootSectors

def slotIndices : List Nat := List.range (kSector / 32)

/-- The loop of `dir_find`, from the `n`-th sector on. -/
def dirFindFrom (d : Disk) (loc : DirLoc) (name : CString) : Nat → Nat → Option (Nat × Nat)
  | 0, _ => none
  | fuel + 1, n =>
    match dirNthSector g d loc n with
    | none => none
    | some sec =>
      match scanSector (d sec) name slotIndices with
      | .hit off => some (sec, off)
      | .ended => none
      | .more => dirFindFrom d loc name fuel (n + 1)

/-- `dir_find`: the sector and the offset of the entry. -/
def dirFind (loc : DirLoc) (name : CString) : Option (Nat × Nat) :=
  dirFindFrom g d loc name (scanBound g + 1) 0

/-- The inner loop of `dir_free_slot`. -/
def freeIn (sector : Buf) : Option Nat :=
  (slotIndices.find? fun e => sector (e * 32) = 0x00 ∨ sector (e * 32) = 0xE5).map (· * 32)

/-- The loop of `dir_free_slot` over the sectors of the directory. -/
def dirFreeFrom (d : Disk) (loc : DirLoc) : Nat → Nat → Option (Nat × Nat)
  | 0, _ => none
  | fuel + 1, n =>
    match dirNthSector g d loc n with
    | none => none
    | some sec =>
      match freeIn (d sec) with
      | some off => some (sec, off)
      | none => dirFreeFrom d loc fuel (n + 1)

/-- The walk of `dir_free_slot` to the last cluster, with the rest of its guard. -/
def tailLoop (d : Disk) : Nat → Nat → Nat
  | 0, tail => tail
  | n + 1, tail =>
    if fatNext g d tail < 0xFFF8 ∧ fatNext g d tail ≥ 2 then tailLoop d n
      (fatNext g d tail) else tail

/-- `dir_free_slot`: a full subdirectory grows by a cluster. -/
def dirFreeSlot (loc : DirLoc) : Option (Nat × Nat) × Disk :=
  match dirFreeFrom g d loc (scanBound g + 1) 0 with
  | some slot => (some slot, d)
  | none =>
    if loc.isRoot then (none, d)
    else
      let tail := tailLoop g d 100000 loc.cluster
      let (nc, d) := allocCluster g d
      if nc = 0 then (none, d) else (some (g.clusterFirstSector nc, 0), fatSet g d tail nc)

/-- The next component of a path, of at most fifteen bytes, and what follows it and its slashes. -/
def nextComponent (path : CString) : CString × CString :=
  let comp := (path.takeWhile (· ≠ slash)).take 15
  (comp, (path.drop comp.length).dropWhile (· = slash))

/-- The loop of `resolve_parent`; each round takes a byte of the path at least. -/
def resolveFrom (d : Disk) : Nat → DirLoc → CString → Option (DirLoc × CString)
  | 0, _, _ => none
  | fuel + 1, cur, path =>
    let (comp, rest) := nextComponent path
    if rest = [] then if comp = [] then none else some (cur, comp)
    else
      match dirFind g d cur comp with
      | none => none
      | some (sec, off) =>
        if d sec (off + 11) &&& 0x10 = 0 then none
        else resolveFrom d fuel ⟨false, rd16 (d sec) (off + 26)⟩ rest

/-- `resolve_parent` -/
def resolveParent (path : CString) : Option (DirLoc × CString) :=
  resolveFrom g d (path.length + 1) {} (path.dropWhile (· = slash))

/-! ## The entry points -/

/-- A directory entry is written: the name, the attribute, zeros, the first cluster and the size. -/
def putEntry (sector : Buf) (off : Nat) (name : List UInt8) (attr : UInt8) (first size : Nat) :
    Buf :=
  let named : Buf := fun i =>
    if off ≤ i ∧ i < off + 11 then name.getD (i - off) 0
    else if i = off + 11 then attr
    else if off + 12 ≤ i ∧ i < off + 26 then 0
    else sector i
  wr32 (wr16 named (off + 26) first) (off + 28) size

/-- What is written to one sector of a file: the next bytes, and zeros. -/
def sectorOf (data : List UInt8) : Buf := fun i => (data.take kSector).getD i 0

/-- The loop over the sectors of one cluster; it returns what is still to be written. -/
def writeSectors (cluster : Nat) : List Nat → Disk → List UInt8 → Disk × List UInt8
  | [], d, data => (d, data)
  | s :: ss, d, data =>
    if data = [] then (d, data)
    else writeSectors cluster ss
      (update d (g.clusterFirstSector cluster + s) (sectorOf data)) (data.drop kSector)

/-- The loop of `lateran_write_file` that fills one cluster after the other; `none` if the disk is
full.  Each round writes a byte at least. -/
def writeChain : Nat → Disk → Nat → Nat → List UInt8 → Option Nat × Disk
  | 0, d, first, _, _ => (some first, d)
  | fuel + 1, d, first, prev, data =>
    if data = [] then (some first, d)
    else
      let (c, d) := allocCluster g d
      if c = 0 then (none, if first ≠ 0 then freeChain g d first else d)
      else
        let d := if first = 0 then d else fatSet g d prev c
        let (d, data) := writeSectors g c (List.range g.sectorsPerCluster) d data
        writeChain fuel d (if first = 0 then c else first) c data

/-- What `lateran_write_file` does once it has a slot. -/
def writeInto (slot : Nat × Nat) (leaf : CString) (buf : List UInt8) : Int × Disk :=
  match writeChain g buf.length d 0 0 buf with
  | (none, d) => (-1, d)
  | (some first, d) =>
    (buf.length,
      update d slot.1 (putEntry (d slot.1) slot.2 (to83 leaf) 0x20 first buf.length))

/-- `lateran_write_file`, on FAT16 -/
def lateranWriteFile (path : CString) (buf : List UInt8) : Int × Disk :=
  match resolveParent g d path with
  | none => (-1, d)
  | some (parent, leaf) =>
    match dirFind g d parent leaf with
    | some slot => writeInto g (freeChain g d (rd16 (d slot.1) (slot.2 + 26))) slot leaf buf
    | none =>
      match dirFreeSlot g d parent with
      | (none, d) => (-1, d)
      | (some slot, d) => writeInto g d slot leaf buf

/-- `lateran_unlink`, on FAT16 -/
def lateranUnlink (path : CString) : Bool × Disk :=
  match resolveParent g d path with
  | none => (false, d)
  | some (parent, leaf) =>
    match dirFind g d parent leaf with
    | none => (false, d)
    | some (sec, off) =>
      (true, freeChain g (update d sec (update (d sec) off 0xE5))
        (rd16 (d sec) (off + 26)))

/-- The first sector of a new directory, with `.` and `..` in it. -/
def dotSector (self parent : Nat) : Buf :=
  putEntry (putEntry (fun _ => 0) 0 (dot :: List.replicate 10 blank) 0x10 self 0)
    32 (dot :: dot :: List.replicate 9 blank) 0x10 parent 0

/-- `lateran_mkdir`, on FAT16 -/
def lateranMkdir (path : CString) : Bool × Disk :=
  match resolveParent g d path with
  | none => (false, d)
  | some (parent, leaf) =>
    match dirFind g d parent leaf with
    | some _ => (false, d)
    | none =>
      let (nc, d) := allocCluster g d
      if nc = 0 then (false, d)
      else
        let d := update d (g.clusterFirstSector nc)
          (dotSector nc (if parent.isRoot then 0 else parent.cluster))
        match dirFreeSlot g d parent with
        | (none, d) => (false, freeChain g d nc)
        | (some slot, d) =>
          (true, update d slot.1 (putEntry (d slot.1) slot.2 (to83 leaf) 0x10 nc 0))

/-! ## Runs -/

/-- The calls that change the volume. -/
inductive Op
  | write (path : CString) (buf : List UInt8)
  | unlink (path : CString)
  | mkdir (path : CString)

def step : Op → Disk
  | .write path buf => (lateranWriteFile g d path buf).2
  | .unlink path => (lateranUnlink g d path).2
  | .mkdir path => (lateranMkdir g d path).2

abbrev run : List Op → Disk := Traces.run (step g) d

end IndexOS.Lateran.Fat16
