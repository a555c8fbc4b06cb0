import IndexOS.Lib.Traces
import Mathlib.Data.Nat.Bitwise

/-!
# The physical page allocator

`src/index/tree_diagram.cpp` hands out the 4 KiB pages of the machine.  `init` reads the memory map
and the spans that must stay untouched — the kernel image, the device tree, the early heap and the
reserved regions —, sorts the spans and carves what is left of each memory region into ranges.
`allocate_page` takes a page that has been given back, if there is one, and otherwise the next page
of the first range that has one.  Pages that have been given back form a stack that is linked
through their own first words, which the kernel reaches through an alias in the high half of the
address space.

Addresses are natural numbers below 2 ^ 64 and sums are taken modulo 2 ^ 64, as the source takes
them.  What `free_page` prints when it meets its own mark is left out.
-/

set_option autoImplicit false

namespace IndexOS.TreeDiagram

def kPageSize : Nat := 4096
def kMaxMemoryRanges : Nat := 16
def kMaxAIMDiffusionRanges : Nat := 64
def kMaxTreeDiagramRanges : Nat := 32
def kHighHalfBase : Nat := 0xFFFFFF8000000000
def kFreeMagic : Nat := 0xDEADBEEFCAFEF00D

/-- Addition in 64 bits. -/
def add64 (a b : Nat) : Nat := (a + b) % 2 ^ 64

/-- `align_up` and `align_down` to the size of a page. -/
def alignUp (x : Nat) : Nat := add64 x (kPageSize - 1) / kPageSize * kPageSize
def alignDown (x : Nat) : Nat := x / kPageSize * kPageSize

/-! ## What the allocator starts from -/

/-- `ImaginaryNumberRange` -/
structure Region where
  base : Nat
  size : Nat

/-- The arguments of `init`: what it reads of the machine's description, the span of the image and
that of the early heap. -/
structure Boot where
  memory : List Region
  aimDiffusionField : List Region
  dtbAddr : Nat
  dtbSize : Nat
  imageStart : Nat
  imageEnd : Nat
  earlyHeapStart : Nat
  earlyHeapEnd : Nat
  memory_le : memory.length ≤ kMaxMemoryRanges
  aim_le : aimDiffusionField.length ≤ kMaxAIMDiffusionRanges

/-- `ReservedSpan` -/
structure Span where
  start : Nat
  fin : Nat

/-- `TreeDiagramRange` -/
structure Range where
  start : Nat
  current : Nat
  fin : Nat

/-- `TreeDiagram` -/
structure Diagram where
  ranges : List Range := []
  totalPages : Nat := 0
  usedPages : Nat := 0
  ready : Bool := false
  freeList : Nat := 0

/-! ## Sorting and carving -/

/-- The inner loop of `sort_reserved` for the span `x` in front: a span that starts earlier changes
places with it. -/
def sortPass (x : Span) : List Span → Span × List Span
  | [] => (x, [])
  | y :: ys =>
    if y.start < x.start then
      let (first, rest) := sortPass y ys
      (first, x :: rest)
    else
      let (first, rest) := sortPass x ys
      (first, y :: rest)

/-- `sort_reserved`, with `n` spans left. -/
def sortReserved : Nat → List Span → List Span
  | 0, spans => spans
  | _ + 1, [] => []
  | n + 1, x :: xs =>
    let (first, rest) := sortPass x xs
    first :: sortReserved n rest

/-- `add_range` -/
def addRange (d : Diagram) (start fin : Nat) : Diagram :=
  let start := alignUp start
  let fin := alignDown fin
  if start ≥ fin ∨ d.ranges.length ≥ kMaxTreeDiagramRanges then d
  else { d with
    ranges := d.ranges ++ [⟨start, start, fin⟩]
    totalPages := d.totalPages + (fin - start) / kPageSize
    ready := true }

/-- The loop of `carve_range` over the reserved spans, and what follows it. -/
def carveLoop (d : Diagram) (cursor limit : Nat) : List Span → Diagram
  | [] => if cursor < limit then addRange d cursor limit else d
  | span :: spans =>
    if cursor < limit then
      let resStart := alignDown span.start
      let resEnd := alignUp span.fin
      if resEnd ≤ cursor ∨ resStart ≥ limit then carveLoop d cursor limit spans
      else
        let d := if resStart > cursor then addRange d cursor resStart else d
        carveLoop d (if resEnd > cursor then resEnd else cursor) limit spans
    else d

/-- `carve_range` -/
def carveRange (d : Diagram) (start fin : Nat) (reserved : List Span) : Diagram :=
  carveLoop d (alignUp start) (alignDown fin) reserved

/-- The reserved regions, entered behind the `n` spans there are already. -/
def reserveFields : Nat → List Region → List Span
  | _, [] => []
  | n, r :: rs =>
    if n < kMaxAIMDiffusionRanges + 3 then
      let fin := add64 r.base r.size
      if fin > r.base then ⟨r.base, fin⟩ :: reserveFields (n + 1) rs else reserveFields n rs
    else []

/-- The array `reserved` of `init`. -/
def reservedSpans (b : Boot) : List Span :=
  let image := if b.imageStart < b.imageEnd then [⟨b.imageStart, b.imageEnd⟩] else []
  let dtb := if b.dtbSize ≠ 0 then [⟨b.dtbAddr, add64 b.dtbAddr b.dtbSize⟩] else []
  let heap := if b.earlyHeapStart < b.earlyHeapEnd then [⟨b.earlyHeapStart, b.earlyHeapEnd⟩] else []
  let own := image ++ dtb ++ heap
  own ++ reserveFields own.length b.aimDiffusionField

/-- The body of the loop of `init` over the memory map. -/
def carveRegion (b : Boot) (reserved : List Span) (d : Diagram) (r : Region) : Diagram :=
  let fin := add64 r.base r.size
  let start := if b.imageStart < fin ∧ b.imageEnd > r.base then b.imageEnd else r.base
  if fin > start then carveRange d start fin reserved else d

/-- `TreeDiagram::init` -/
def init (b : Boot) : Diagram :=
  let reserved := reservedSpans b
  let reserved := sortReserved reserved.length reserved
  b.memory.foldl (carveRegion b reserved) {}

/-! ## Handing out pages -/

/-- `free_slot`: where the kernel reaches the first word of a page. -/
def freeSlot (phys : Nat) : Nat := phys ||| kHighHalfBase

/-- The allocator and the words of memory, by their addresses in the high half. -/
structure Machine where
  tree : Diagram
  mem : Nat → Nat

/-- The bump part of `allocate_page`: the next page of the first range that has one. -/
def bump : List Range → Option (Nat × List Range)
  | [] => none
  | r :: rs =>
    if add64 r.current kPageSize ≤ r.fin then
      some (r.current, { r with current := add64 r.current kPageSize } :: rs)
    else (bump rs).map fun (page, rs) => (page, r :: rs)

/-- `TreeDiagram::allocate_page`; the null pointer is 0. -/
def allocatePage (m : Machine) : Nat × Machine :=
  if !m.tree.ready then (0, m)
  else if m.tree.freeList ≠ 0 then
    let pa := m.tree.freeList
    (pa,
      { tree := { m.tree with freeList := m.mem (freeSlot pa), usedPages := m.tree.usedPages + 1 }
        mem := Function.update m.mem (freeSlot pa + 8) 0 })
  else
    match bump m.tree.ranges with
    | none => (0, m)
    | some (page, ranges) =>
      (page, { m with tree := { m.tree with ranges := ranges, usedPages := m.tree.usedPages + 1 } })

/-- `TreeDiagram::free_page` -/
def freePage (m : Machine) (phys : Nat) : Machine :=
  if phys = 0 then m
  else
    let phys := alignDown phys
    { tree := { m.tree with freeList := phys, usedPages := m.tree.usedPages - 1 }
      mem := Function.update (Function.update m.mem (freeSlot phys) m.tree.freeList)
        (freeSlot phys + 8) kFreeMagic }

/-! ## Runs -/

/-- The calls, and the stores of those who hold pages. -/
inductive Op
  | allocate
  | free (page : Nat)
  | store (addr word : Nat)

/-- The machine, with a record of the pages that are currently handed out. -/
structure State where
  machine : Machine
  out : List Nat

def State.step (s : State) : Op → State
  | .allocate =>
    let (page, m) := allocatePage s.machine
    { machine := m, out := if page = 0 then s.out else page :: s.out }
  | .free page => { machine := freePage s.machine page, out := s.out.erase page }
  | .store addr word =>
    { s with machine := { s.machine with mem := Function.update s.machine.mem addr word } }

/-- Only pages that are handed out are freed, and stores go to such pages. -/
def Op.Legal (s : State) : Op → Prop
  | .allocate => True
  | .free page => page ∈ s.out
  | .store addr _ => ∃ page ∈ s.out, freeSlot page ≤ addr ∧ addr < freeSlot page + kPageSize

instance (s : State) : (op : Op) → Decidable (op.Legal s)
  | .allocate => .isTrue trivial
  | .free page => inferInstanceAs (Decidable (page ∈ s.out))
  | .store addr _ => inferInstanceAs
      (Decidable (∃ page ∈ s.out, freeSlot page ≤ addr ∧ addr < freeSlot page + kPageSize))

abbrev State.run : State → List Op → State := Traces.run State.step

abbrev Legal : State → List Op → Prop := Traces.EachStep State.step fun s op => op.Legal s

/-- After `init`, whatever memory holds. -/
def State.boot (b : Boot) (mem : Nat → Nat) : State := ⟨⟨init b, mem⟩, []⟩

end IndexOS.TreeDiagram
