import IndexOS.Lib.Tiling
import Mathlib.Data.Nat.Bitwise

/-!
# DarkMatter, the kernel heap

`src/index/dark_matter.cpp` manages one static arena as an *implicit* free list: every block is a
16-byte header `{ size, free }` followed by its payload, and the neighbour of a block sits right
behind that payload.  There is no list to follow but the headers themselves.

The arena is modelled as the 64-bit words it holds, addressed by their byte offset from
`g_arena`: the `size` field of the header at `b` is the word at `b`, its `free` field the word at
`b + 8`.  Pointers are such offsets too, with `none` for the null pointer.  Loops that follow
`next_block` carry a fuel argument; `kMaxBlocks`, the number of headers that fit in the arena, is
always enough of it.

The lock `g_lock` does not appear: it makes every operation below atomic, which is how they are
modelled.
-/

set_option autoImplicit false

namespace IndexOS.DarkMatter

open Tiling

/-- `align_up` of `types.hpp`, on 64-bit words. -/
def alignUp (value alignment : Nat) : Nat :=
  ((value + alignment - 1) % 2 ^ 64) &&& ((2 ^ 64 - 1) ^^^ (alignment - 1))

/-- 256 MiB. -/
def kArenaSize : Nat := 256 * 1024 * 1024

/-- `sizeof(Block)`: two 64-bit words. -/
def sizeofBlock : Nat := 16

/-- How many headers fit in the arena. -/
def kMaxBlocks : Nat := kArenaSize / sizeofBlock

/-- Addition and subtraction of `uint64_t`. -/
def add64 (a b : Nat) : Nat := (a + b) % 2 ^ 64

@[inherit_doc add64]
def sub64 (a b : Nat) : Nat := (a + 2 ^ 64 - b) % 2 ^ 64

/-- The allocator's globals. -/
structure Heap where
  /-- `g_arena`: the 64-bit word at a byte offset. -/
  mem : Nat → Nat
  /-- `g_ready` -/
  ready : Bool
  /-- `g_allocations` -/
  allocations : Nat
  /-- `g_frees` -/
  frees : Nat

variable (m : Nat → Nat)

/-- Store a word. -/
def store (a v : Nat) : Nat → Nat := fun x => if x = a then v else m x

/-- `b->size` -/
def sizeAt (b : Nat) : Nat := m b

/-- `b->free`, as the condition the code tests. -/
def freeAt (b : Nat) : Bool := m (b + 8) != 0

def firstBlock : Nat := 0

def nextBlock (b : Nat) : Option Nat :=
  if b + sizeofBlock + sizeAt m b ≥ kArenaSize then none
  else some (b + sizeofBlock + sizeAt m b)

/-- The inner loop of `coalesce`: as long as the neighbour of `b` is free, swallow it. -/
def coalesceRun : Nat → (Nat → Nat) → Nat → Nat → Nat
  | 0, m, _ => m
  | fuel + 1, m, b =>
    match nextBlock m b with
    | none => m
    | some n =>
      if freeAt m n then
        coalesceRun fuel (store m b (add64 (sizeAt m b) (add64 sizeofBlock (sizeAt m n)))) b
      else m

/-- The outer loop of `coalesce`, from the block `b` on. -/
def coalesceFrom : Nat → (Nat → Nat) → Nat → Nat → Nat
  | 0, m, _ => m
  | fuel + 1, m, b =>
    let m₁ := if freeAt m b then coalesceRun kMaxBlocks m b else m
    match nextBlock m₁ b with
    | none => m₁
    | some n => coalesceFrom fuel m₁ n

/-- Merge each free block with the run of free blocks that follow it. -/
def coalesce : Nat → Nat := coalesceFrom kMaxBlocks m firstBlock

def darkMatterInit (h : Heap) : Heap :=
  { h with
    mem := store (store h.mem firstBlock (kArenaSize - sizeofBlock)) (firstBlock + 8) 1
    ready := true }

/-- What `dark_matter_alloc` does to the block it settles on: split off the leftover if it can
hold a header and a minimum payload, and mark the block allocated. -/
def takeBlock (size b : Nat) : Nat → Nat :=
  let m₁ :=
    if sizeAt m b ≥ add64 size (sizeofBlock + 16) then
      let split := b + sizeofBlock + size
      store
        (store (store m split (sub64 (sub64 (sizeAt m b) size) sizeofBlock)) (split + 8) 1)
        b size
    else m
  store m₁ (b + 8) 0

/-- The first-fit loop of `dark_matter_alloc`, from the block `b` on. -/
def allocFrom (size : Nat) : Nat → (Nat → Nat) → Nat → Option Nat × (Nat → Nat)
  | 0, m, _ => (none, m)
  | fuel + 1, m, b =>
    if !freeAt m b || sizeAt m b < size then
      match nextBlock m b with
      | none => (none, m)
      | some n => allocFrom size fuel m n
    else (some (b + sizeofBlock), takeBlock m size b)

def darkMatterAlloc (h : Heap) (size : Nat) : Option Nat × Heap :=
  if !h.ready || size == 0 then (none, h)
  else
    let r := allocFrom (alignUp size 16) kMaxBlocks h.mem firstBlock
    match r.1 with
    | none => (none, h)
    | some p => (some p, { h with mem := r.2, allocations := add64 h.allocations 1 })

def darkMatterFree (h : Heap) (ptr : Option Nat) : Heap :=
  match ptr with
  | none => h
  | some p =>
    if !h.ready || p < sizeofBlock || p ≥ kArenaSize then h
    else
      { h with
        mem := coalesce (store h.mem (p - sizeofBlock + 8) 1)
        frees := add64 h.frees 1 }

/-! ## Reading the block list off the arena -/

/-- The header at `b` as a cell of the arena. -/
def cellAt (b : Nat) : Cell := ⟨b, sizeAt m b, freeAt m b⟩

/-- The blocks `next_block` visits from `b` on. -/
def blocksFrom : Nat → (Nat → Nat) → Nat → List Cell
  | 0, _, _ => []
  | fuel + 1, m, b =>
    cellAt m b ::
      match nextBlock m b with
      | none => []
      | some n => blocksFrom fuel m n

/-- All blocks of the arena, in the order of the walk every loop of the allocator makes. -/
def blocks (h : Heap) : List Cell := blocksFrom kMaxBlocks h.mem firstBlock

/-! ## Runs of a client -/

/-- `a` is a byte of one of the live allocations, given as pointer and requested length. -/
def InPayload (live : List (Nat × Nat)) (a : Nat) : Prop :=
  ∃ x ∈ live, x.1 ≤ a ∧ a < x.1 + x.2

/-- The states a client can bring the heap to, together with the list of its live allocations
(pointer and requested length).  Besides allocating and freeing, a client may overwrite its own
payloads; whatever it stores there must not matter. -/
inductive Reachable : Heap → List (Nat × Nat) → Prop
  | init (h : Heap) : Reachable (darkMatterInit h) []
  | alloc {h : Heap} {live : List (Nat × Nat)} {size p : Nat} (hr : Reachable h live)
      (hsize : size ≤ 2 ^ 64 - 16) (hp : (darkMatterAlloc h size).1 = some p) :
      Reachable (darkMatterAlloc h size).2 ((p, size) :: live)
  | allocNull {h : Heap} {live : List (Nat × Nat)} {size : Nat} (hr : Reachable h live)
      (hsize : size ≤ 2 ^ 64 - 16) (hp : (darkMatterAlloc h size).1 = none) :
      Reachable (darkMatterAlloc h size).2 live
  | free {h : Heap} {live : List (Nat × Nat)} {x : Nat × Nat} (hr : Reachable h live)
      (hx : x ∈ live) : Reachable (darkMatterFree h (some x.1)) (live.erase x)
  | scribble {h : Heap} {live : List (Nat × Nat)} {m : Nat → Nat} (hr : Reachable h live)
      (hm : ∀ a, ¬ InPayload live a → m a = h.mem a) : Reachable { h with mem := m } live

end IndexOS.DarkMatter
