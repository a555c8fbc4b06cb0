import IndexOS.Lib.Traces
import IndexOS.Reality.Vma

/-!
# Demand paging, copy-on-write and teardown

`src/index/personal_reality_v2.cpp` gives every process its own three levels of page tables.  The
top table (L1) starts as a copy of the kernel's; the tables below it are built when a page is first
touched.  A page of data is counted in `g_page_refs`, so that `pr2_fork` can map it into a second
address space, read-only, and the first write of either makes a copy.

The machine is what these functions read and write: the words of physical memory, the counters, the
pages the allocator can hand out, and the table `g_realities` of address spaces.  Physical pages are
named by their number (the address divided by 4096) and hold 512 words of 64 bits.  The allocator is
`TreeDiagram`'s as its callers see it: a stack of free pages.  What the source does for the caches
and the translation buffers is left out, and so are the locks: every function here runs under one.

The functions have the names of the source without the `pr2_`: `createAddrSpace`, `handleFault`,
`prefaultRange`, `writeUser`, `fork`, `destroy`, `removeVmaRange`, `mprotect`.  A store made by the
program itself is `store`: it goes through an entry of the process's own tables that carries the
writable attribute.  The entries copied from the kernel's L1 are for the kernel alone, so nothing of
theirs is visible to the program.
-/

set_option autoImplicit false

namespace IndexOS.Reality

open TreeDiagram (kPageSize add64 alignUp alignDown)

/-! ## Descriptors -/

/-- The words of a page. -/
abbrev Page := Fin 512 → Nat

def l1Index (va : Nat) : Fin 512 := Fin.ofNat 512 (va / 2 ^ 30)
def l2Index (va : Nat) : Fin 512 := Fin.ofNat 512 (va / 2 ^ 21)
def l3Index (va : Nat) : Fin 512 := Fin.ofNat 512 (va / 2 ^ 12)

/-- The descriptor has the bits `kTable`, which in an L3 table are those of `kPage`. -/
def Links (w : Nat) : Prop := w % 4 = 3

instance (w : Nat) : Decidable (Links w) := by unfold Links; infer_instance

/-- The page a descriptor points to. -/
def frameOf (w : Nat) : Nat := w / 4096 % 2 ^ 36

def canWrite (prot : UInt8) : Bool := prot &&& kVmaProtW ≠ 0
def canExec (prot : UInt8) : Bool := prot &&& kVmaProtX ≠ 0

/-- `page_attrs`: the bits `kAttrNormal`, `kShInner`, `kAf` and `kPxn`, then `kApRwBoth` or
`kApRoBoth`, and `kUxn`. -/
def pageAttrs (prot : UInt8) : Nat :=
  2 ^ 2 + 3 * 2 ^ 8 + 2 ^ 10 + 2 ^ 53 + (if canWrite prot then 1 * 2 ^ 6 else 3 * 2 ^ 6) +
    (if canExec prot then 0 else 2 ^ 54)

def tableEntry (f : Nat) : Nat := f * 4096 + 3
def pageEntry (f : Nat) (prot : UInt8) : Nat := f * 4096 + 3 + pageAttrs prot

/-- A store of the program through the entry is let through: its access bits are `kApRwBoth`. -/
def Writable (w : Nat) : Prop := Links w ∧ w / 2 ^ 6 % 4 = 1

instance (w : Nat) : Decidable (Writable w) := by unfold Writable; infer_instance

/-! ## The machine -/

/-- A slot of `g_realities`, which has `kMaxRealities`, twice the number of Espers. -/
abbrev SpaceId := Fin 128

instance neZeroSpaces : NeZero 128 := ⟨by decide⟩

/-- `PersonalReality`, for a slot that is in use. -/
structure Space where
  ttbr0 : Nat
  vmas : List Vma := []
  brkStart : Nat := 0
  brkCur : Nat := 0
  mmapNext : Nat := 0
deriving DecidableEq

structure Machine where
  kernelL1 : Nat
  mem : Nat → Page
  refs : Nat → Nat
  pool : List Nat
  spaces : SpaceId → Option Space

variable (m : Machine)

namespace Machine

def setPage (f : Nat) (page : Page) : Machine :=
  { m with mem := fun g => if g = f then page else m.mem g }

def setWord (f : Nat) (i : Fin 512) (w : Nat) : Machine :=
  m.setPage f (fun j => if j = i then w else m.mem f j)

def setRefs (f n : Nat) : Machine :=
  { m with refs := fun g => if g = f then n else m.refs g }

def setSpace (s : SpaceId) (sp : Option Space) : Machine :=
  { m with spaces := fun t => if t = s then sp else m.spaces t }

/-- The page `f` is taken, cleared, and `rest` is left to be handed out. -/
def draw (f : Nat) (rest : List Nat) : Machine :=
  { m.setPage f (fun _ => 0) with pool := rest }

/-- The byte at an offset in a page, and a page with one byte replaced. -/
def byteAt (page : Page) (off : Nat) : Nat := page (Fin.ofNat 512 (off / 8)) / 256 ^ (off % 8) % 256

def setByte (f off : Nat) (b : UInt8) : Machine :=
  let i := Fin.ofNat 512 (off / 8)
  m.setWord f i (m.mem f i - byteAt (m.mem f) off * 256 ^ (off % 8) + b.toNat * 256 ^ (off % 8))

end Machine

/-! ## Pages and their counters -/

/-- The pages with a counter: 2 GiB from `kRamBase`. -/
def Tracked (f : Nat) : Prop := 0x40000 ≤ f ∧ f < 0x40000 + 0x80000

instance (f : Nat) : Decidable (Tracked f) := by unfold Tracked; infer_instance

/-- `alloc_page_zeroed` -/
def allocPageZeroed : Option (Nat × Machine) :=
  match m.pool with
  | [] => none
  | f :: rest => some (f, m.draw f rest)

/-- `tree_diagram_free_page` -/
def freePage (f : Nat) : Machine := { m with pool := f :: m.pool }

/-- `page_ref`, on a counter of 16 bits. -/
def pageRef (f : Nat) : Machine :=
  if Tracked f then m.setRefs f ((m.refs f + 1) % 2 ^ 16) else m

/-- `page_refcount` -/
def pageRefcount (f : Nat) : Nat := if Tracked f then m.refs f else 1

/-- `page_unref` -/
def pageUnref (f : Nat) : Machine :=
  if Tracked f ∧ m.refs f > 0 then
    let m' := m.setRefs f (m.refs f - 1)
    if m.refs f = 1 then freePage m' f else m'
  else m

/-! ## Walking the tables -/

/-- The table an entry points to, or a new one.  Where the entry was a block the source first clears
it (break before make) and then writes the new table over it. -/
def tableFor (t : Nat) (i : Fin 512) : Machine × Option Nat :=
  if Links (m.mem t i) then (m, some (frameOf (m.mem t i)))
  else
    match allocPageZeroed m with
    | none => (m, none)
    | some (p, m) => (m.setWord t i (tableEntry p), some p)

/-- The entry of `l1` for `va` is a table that belongs to the kernel. -/
def SharesKernel (l1 va : Nat) : Prop :=
  Links (m.mem l1 (l1Index va)) ∧ m.mem l1 (l1Index va) = m.mem m.kernelL1 (l1Index va)

instance (m : Machine) (l1 va : Nat) : Decidable (SharesKernel m l1 va) := by
  unfold SharesKernel; infer_instance

/-- `ensure_l3_entry`, with the L3 table in place of the entry `l3Index va` in it. -/
def ensureL3 (l1 va : Nat) : Machine × Option Nat :=
  if SharesKernel m l1 va then (m, none)
  else
    match tableFor m l1 (l1Index va) with
    | (m, none) => (m, none)
    | (m, some l2) => tableFor m l2 (l2Index va)

/-- `lookup_l3` -/
def lookupL3 (l1 va : Nat) : Nat :=
  let l1e := m.mem l1 (l1Index va)
  if Links l1e then
    let l2e := m.mem (frameOf l1e) (l2Index va)
    if Links l2e then m.mem (frameOf l2e) (l3Index va) else 0
  else 0

/-! ## Address spaces -/

/-- The page `pr2_create_addr_space` makes: a copy of the kernel's L1 with the first entry empty. -/
def inheritedL1 : Page := fun i => if i = 0 then 0 else m.mem m.kernelL1 i

/-- `reality_alloc` takes the first slot that is not in use. -/
def realityAlloc : Option (SpaceId) :=
  (List.finRange 128).find? (fun s => (m.spaces s).isNone)

/-- `reality_alloc` and `pr2_create_addr_space`, as their callers use them: when there is no page
for the L1 the slot is given back. -/
def createAddrSpace : Option (SpaceId × Nat × Machine) :=
  match realityAlloc m with
  | none => none
  | some s =>
    match allocPageZeroed m with
    | none => none
    | some (l1, m) => some (s, l1, (m.setPage l1 (inheritedL1 m)).setSpace s (some { ttbr0 := l1 }))

/-- The body of the inner loop of `pr2_destroy`: the entry `k` of an L3 table. -/
def releaseLeaf (l3 : Nat) (m : Machine) (k : Fin 512) : Machine :=
  if Links (m.mem l3 k) then pageUnref m (frameOf (m.mem l3 k)) else m

/-- The entry `j` of an L2 table: the pages of the L3 table, then the table. -/
def releaseL3 (l2 : Nat) (m : Machine) (j : Fin 512) : Machine :=
  if Links (m.mem l2 j) then
    let l3 := frameOf (m.mem l2 j)
    freePage ((List.finRange 512).foldl (releaseLeaf l3) m) l3
  else m

/-- The entry `i` of the L1 table, passed over when it is the kernel's. -/
def releaseL2 (l1 : Nat) (m : Machine) (i : Fin 512) : Machine :=
  if m.mem l1 i = m.mem m.kernelL1 i ∨ ¬ Links (m.mem l1 i) then m
  else
    let l2 := frameOf (m.mem l1 i)
    freePage ((List.finRange 512).foldl (releaseL3 l2) m) l2

/-- `pr2_destroy`, and the slot given back as `reality_unref` does. -/
def destroy (s : SpaceId) : Machine :=
  match m.spaces s with
  | none => m
  | some sp => (freePage ((List.finRange 512).foldl (releaseL2 sp.ttbr0) m) sp.ttbr0).setSpace s
    none

/-! ## Page faults -/

/-- What a region can be filled from: the bytes of kernel memory, where an image is resident, and
`lateran_pread`. -/
structure Files where
  resident : Nat → UInt8
  pread : List UInt8 → Nat → Nat → List UInt8

/-- The byte `b` of a fresh page of the region `v` at `pageVa`. -/
def fileByte (files : Files) (v : Vma) (pageVa b : Nat) : UInt8 :=
  if v.Backed then
    let segVa := add64 v.start v.segPad
    let lo := max pageVa segVa
    let hi := min (add64 pageVa kPageSize) (add64 segVa v.fileSize)
    let off := add64 v.fileOff (lo - segVa)
    let i := b - (lo - pageVa)
    if lo < hi ∧ lo - pageVa ≤ b ∧ i < hi - lo then
      if v.fileSrc ≠ 0 then files.resident (v.fileSrc + off + i)
      else ((files.pread v.filePath off (hi - lo)).take (hi - lo)).getD i 0
    else 0
  else 0

/-- The words of a fresh page. -/
def freshPage (files : Files) (v : Vma) (pageVa : Nat) : Page := fun i =>
  (List.range 8).foldr (fun t w => (fileByte files v pageVa (8 * i.val + t)).toNat + 256 * w) 0

/-- A page that is shared is copied before it is written: the first branch of `pr2_handle_fault` for
an entry that is present. -/
def copyPage (l3 : Nat) (k : Fin 512) (pa : Nat) (prot : UInt8) : Machine × Bool :=
  match allocPageZeroed m with
  | none => (m, false)
  | some (npa, m) =>
    let m := m.setPage npa (m.mem pa)
    ((pageRef (pageUnref m pa) npa).setWord l3 k (pageEntry npa prot), true)

/-- The first touch of a page. -/
def mapPage (files : Files) (v : Vma) (pageVa : Nat) (m : Machine) (l3 : Nat) (k : Fin 512) :
    Machine × Bool :=
  match allocPageZeroed m with
  | none => (m, false)
  | some (p, m) =>
    (pageRef ((m.setPage p (freshPage files v pageVa)).setWord l3 k (pageEntry p v.prot)) p, true)

/-- What `pr2_handle_fault` does with the entry `k` of the L3 table. -/
def resolve (files : Files) (v : Vma) (pageVa : Nat) (m : Machine) (l3 : Nat) (k : Fin 512) :
    Machine × Bool :=
  let e := m.mem l3 k
  if Links e then
    if canWrite v.prot ∧ pageRefcount m (frameOf e) > 1 then copyPage m l3 k (frameOf e) v.prot
    else (m.setWord l3 k (pageEntry (frameOf e) v.prot), true)
  else mapPage files v pageVa m l3 k

/-- `pr2_handle_fault` -/
def handleFault (files : Files) (m : Machine) (s : SpaceId) (far : Nat) : Machine × Bool :=
  match m.spaces s with
  | none => (m, false)
  | some sp =>
    match findVma sp.vmas (alignDown far) with
    | none => (m, false)
    | some v =>
      match ensureL3 m sp.ttbr0 (alignDown far) with
      | (m, none) => (m, false)
      | (m, some l3) => resolve files v (alignDown far) m l3 (l3Index (alignDown far))

/-- `pr2_prefault_range` from a page on, with `n` pages left. -/
def prefaultPages (files : Files) (s : SpaceId) : Nat → Nat → Machine → Machine × Bool
  | 0, _, m => (m, true)
  | n + 1, page, m =>
    match handleFault files m s page with
    | (m, false) => (m, false)
    | (m, true) => prefaultPages files s n (page + kPageSize) m

/-- `pr2_prefault_range`.  The loop of the source ends after the page `last`: no region reaches the
last page of the 64 bits, so that the fault on it fails before the address could wrap. -/
def prefaultRange (files : Files) (m : Machine) (s : SpaceId) (va len : Nat) :
    Machine × Bool :=
  if len = 0 then (m, true)
  else
    let first := alignDown va
    let last := alignDown (add64 va (len - 1))
    prefaultPages files s (if first ≤ last then (last - first) / kPageSize + 1 else 0) first m

/-- `user_byte_ptr`, with the page in place of the address in it. -/
def userBytePtr (files : Files) (m : Machine) (s : SpaceId) (va : Nat) :
    Machine × Option Nat :=
  match handleFault files m s va, m.spaces s with
  | (m, true), some sp =>
    match ensureL3 m sp.ttbr0 (alignDown va) with
    | (m, none) => (m, none)
    | (m, some l3) =>
      let e := m.mem l3 (l3Index (alignDown va))
      if Links e then (m, some (frameOf e)) else (m, none)
  | (m, _), _ => (m, none)

/-- `pr2_write_user` -/
def writeUser (files : Files) (s : SpaceId) : Nat → List UInt8 → Machine → Machine × Bool
  | _, [], m => (m, true)
  | va, b :: bs, m =>
    match userBytePtr files m s va with
    | (m, none) => (m, false)
    | (m, some f) => writeUser files s (add64 va 1) bs (m.setByte f (va % kPageSize) b)

/-! ## Fork -/

/-- The body of the inner loop of `pr2_fork`, for the page at `va`. -/
def forkPage (p c : Nat) (prot : UInt8) (m : Machine) (va : Nat) : Machine × Bool :=
  match ensureL3 m p va with
  | (m, none) => (m, true)
  | (m, some pl3) =>
    let e := m.mem pl3 (l3Index va)
    if Links e then
      let entry := pageEntry (frameOf e) (prot &&& ~~~ kVmaProtW)
      match ensureL3 (m.setWord pl3 (l3Index va) entry) c va with
      | (m, none) => (m, false)
      | (m, some cl3) => (pageRef (m.setWord cl3 (l3Index va) entry) (frameOf e), true)
    else (m, true)

/-- The inner loop, from the page at `va` on with `n` pages left. -/
def forkPages (p c : Nat) (prot : UInt8) : Nat → Nat → Machine → Machine × Bool
  | 0, _, m => (m, true)
  | n + 1, va, m =>
    match forkPage p c prot m va with
    | (m, false) => (m, false)
    | (m, true) => forkPages p c prot n (va + kPageSize) m

/-- The loop over the regions. -/
def forkVmas (p c : Nat) : List Vma → Machine → Machine × Bool
  | [], m => (m, true)
  | v :: vs, m =>
    if v.kind = .free then forkVmas p c vs m
    else
      match forkPages p c v.prot ((v.fin - v.start) / kPageSize) v.start m with
      | (m, false) => (m, false)
      | (m, true) => forkVmas p c vs m

/-- `pr2_fork`: the slot of the child, when there is one. -/
def fork (s : SpaceId) : Machine × Option (SpaceId) :=
  match m.spaces s with
  | none => (m, none)
  | some sp =>
    match createAddrSpace m with
    | none => (m, none)
    | some (c, l1, m) =>
      match forkVmas sp.ttbr0 l1 sp.vmas (m.setSpace c (some { sp with ttbr0 := l1 })) with
      | (m, true) => (m, some c)
      | (m, false) => (destroy m c, none)

/-! ## Changing the regions -/

/-- The body of the second loop of `pr2_remove_vma_range`. -/
def removePage (l1 : Nat) (m : Machine) (va : Nat) : Machine :=
  if Links (lookupL3 m l1 va) then
    match ensureL3 m l1 va with
    | (m, none) => m
    | (m, some l3) =>
      pageUnref (m.setWord l3 (l3Index va) 0) (frameOf (m.mem l3 (l3Index va)))
  else m

/-- The body of the second loop of `pr2_mprotect`. -/
def protectPage (prot : UInt8) (l1 : Nat) (m : Machine) (va : Nat) : Machine :=
  let pe := lookupL3 m l1 va
  if Links pe then
    match ensureL3 m l1 va with
    | (m, none) => m
    | (m, some l3) => m.setWord l3 (l3Index va) (pageEntry (frameOf pe) prot)
  else m

/-- A loop over `n` pages from the one at `va` on. -/
def overPages (body : Machine → Nat → Machine) : Nat → Nat → Machine → Machine
  | 0, _, m => m
  | n + 1, va, m => overPages body n (va + kPageSize) (body m va)

/-- `pr2_remove_vma_range` -/
def removeVmaRange (s : SpaceId) (lo hi : Nat) : Machine :=
  match m.spaces s with
  | none => m
  | some sp =>
    if hi ≤ lo then m
    else
      let lo := alignDown lo
      let hi := alignUp hi
      overPages (removePage sp.ttbr0) ((hi - lo) / kPageSize) lo
        (m.setSpace s (some { sp with vmas := removeVmas sp.vmas lo hi }))

/-- `pr2_mprotect` -/
def mprotect (s : SpaceId) (va len : Nat) (prot : UInt8) : Machine :=
  match m.spaces s with
  | none => m
  | some sp =>
    if len = 0 then m
    else
      let lo := alignDown va
      let hi := alignUp (add64 va len)
      overPages (protectPage prot sp.ttbr0) ((hi - lo) / kPageSize) lo
        (m.setSpace s (some { sp with vmas := protectVmas sp.vmas lo hi prot }))

/-! ## What a process sees -/

/-- The place of an L3 entry below an L1 table. -/
abbrev Slot := Fin 512 × Fin 512 × Fin 512

def slotOf (va : Nat) : Slot := (l1Index va, l2Index va, l3Index va)

/-- The entry `i` of an L1 table leads to a table of the process's own. -/
def Own (l1 : Nat) (i : Fin 512) : Prop :=
  Links (m.mem l1 i) ∧ m.mem l1 i ≠ m.mem m.kernelL1 i

instance (m : Machine) (l1 : Nat) (i : Fin 512) : Decidable (Own m l1 i) := by
  unfold Own; infer_instance

/-- The L3 entry of an address space at a slot, through tables of its own, and 0 where there is
none. -/
def leaf (s : SpaceId) (q : Slot) : Nat :=
  match m.spaces s with
  | none => 0
  | some sp =>
    if Own m sp.ttbr0 q.1 then
      let l2e := m.mem (frameOf (m.mem sp.ttbr0 q.1)) q.2.1
      if Links l2e then m.mem (frameOf l2e) q.2.2 else 0
    else 0

/-- The page mapped at a slot. -/
def mapped (s : SpaceId) (q : Slot) : Option Nat :=
  if Links (leaf m s q) then some (frameOf (leaf m s q)) else none

/-- The byte an address space reads at `va`, when a page is mapped there. -/
def readByte (s : SpaceId) (va : Nat) : Option Nat :=
  (mapped m s (slotOf va)).map fun f => Machine.byteAt (m.mem f) (va % kPageSize)

/-- A store of the program; one that is not let through changes nothing. -/
def store (s : SpaceId) (va : Nat) (b : UInt8) : Machine :=
  if Writable (leaf m s (slotOf va)) then
    m.setByte (frameOf (leaf m s (slotOf va))) (va % kPageSize) b
  else m

/-! ## Runs -/

inductive Op where
  | create
  | addVma (s : SpaceId) (start fin : Nat) (prot : UInt8) (kind : VmaKind)
      (fileSrc fileOff fileSize segVaddr : Nat) (filePath : Option (List UInt8))
  | handleFault (files : Files) (s : SpaceId) (far : Nat)
  | prefaultRange (files : Files) (s : SpaceId) (va len : Nat)
  | writeUser (files : Files) (s : SpaceId) (va : Nat) (bytes : List UInt8)
  | fork (s : SpaceId)
  | mprotect (s : SpaceId) (va len : Nat) (prot : UInt8)
  | removeVmaRange (s : SpaceId) (lo hi : Nat)
  | destroy (s : SpaceId)
  | store (s : SpaceId) (va : Nat) (b : UInt8)

/-- A new region is put into the table of an address space, when there is room. -/
def addRegion (s : SpaceId) (add : List Vma → Option (List Vma)) : Machine :=
  match m.spaces s with
  | none => m
  | some sp =>
    match add sp.vmas with
    | none => m
    | some vmas => m.setSpace s (some { sp with vmas := vmas })

def step : Op → Machine
  | .create => (createAddrSpace m).elim m (fun r => r.2.2)
  | .addVma s start fin prot kind fileSrc fileOff fileSize segVaddr filePath =>
    addRegion m s fun vs =>
      addVma vs start fin prot kind fileSrc fileOff fileSize segVaddr filePath
  | .handleFault files s far => (handleFault files m s far).1
  | .prefaultRange files s va len => (prefaultRange files m s va len).1
  | .writeUser files s va bytes => (writeUser files s va bytes m).1
  | .fork s => (fork m s).1
  | .mprotect s va len prot => mprotect m s va len prot
  | .removeVmaRange s lo hi => removeVmaRange m s lo hi
  | .destroy s => destroy m s
  | .store s va b => store m s va b

abbrev run : List Op → Machine := Traces.run step m

end IndexOS.Reality
