import IndexOS.TreeDiagram.Pages

/-!
# The regions of an address space

`src/index/personal_reality_v2.cpp` keeps, for every address space, a table of at most `kMaxVmas`
regions (VMAs).  A region says which addresses are valid, how they may be used and where the first
contents of their pages come from; the page tables are filled in from it on demand.  A slot of the
table whose kind is `free` describes nothing and is used again by the next region that is added.

This module is the part of the source that only touches this table:

* `addVma` — `pr2_add_vma`, which rounds the bounds to pages and takes the first free slot;
* `carveVma`, `removeVmas` — the first loop of `pr2_remove_vma_range`, which cuts a hole into the
  table and splits a region that sticks out on both sides;
* `protectVma`, `protectVmas` — the first loop of `pr2_mprotect`, which gives a range a new
  protection and splits the regions that cross its ends;
* `findVma` — `find_vma`.

Addresses are natural numbers below 2 ^ 64; sums are taken modulo 2 ^ 64, as the source takes them.
-/

set_option autoImplicit false

namespace IndexOS.Reality

open TreeDiagram (kPageSize add64 alignUp alignDown)

def kMaxVmas : Nat := 512
def kVmaProtW : UInt8 := 2
def kVmaProtX : UInt8 := 4

/-- `VmaKind` -/
inductive VmaKind where
  | free
  | anon
  | file
  | stack
  | brk
deriving DecidableEq

/-- `Vma`.  The address `fileSrc` is 0 where the source has a null pointer, and the path is empty
where its first byte is 0. -/
structure Vma where
  start : Nat := 0
  fin : Nat := 0
  fileSrc : Nat := 0
  fileOff : Nat := 0
  fileSize : Nat := 0
  segPad : Nat := 0
  prot : UInt8 := 0
  kind : VmaKind := .free
  filePath : List UInt8 := []
deriving DecidableEq

/-- A page of the region is read from a file: from a resident image or by its path. -/
def Vma.Backed (v : Vma) : Prop := v.kind = .file ∧ (v.fileSrc ≠ 0 ∨ v.filePath ≠ [])

instance (v : Vma) : Decidable v.Backed := by unfold Vma.Backed; infer_instance

/-- The bytes of `file_path` that fit. -/
def pathCap : Nat := 95

/-- What `pr2_add_vma` writes into the slot it has found. -/
def Vma.make (start fin : Nat) (prot : UInt8) (kind : VmaKind)
    (fileSrc fileOff fileSize segVaddr : Nat) (filePath : Option (List UInt8)) : Vma where
  start := alignDown start
  fin := alignUp fin
  prot := prot
  kind := kind
  fileSrc := fileSrc
  fileOff := fileOff
  fileSize := fileSize
  segPad := if segVaddr ≠ 0 ∧ alignDown start ≤ segVaddr then segVaddr - alignDown start else 0
  filePath := (filePath.getD []).take pathCap

variable (vs : List Vma)

/-- The slot that is used next: the first free one, or one more. -/
def putVma (v : Vma) : Option (List Vma) :=
  match vs.findIdx? (fun u => u.kind = .free) with
  | some i => some (vs.set i v)
  | none => if vs.length ≥ kMaxVmas then none else some (vs ++ [v])

/-- `pr2_add_vma` -/
def addVma (start fin : Nat) (prot : UInt8) (kind : VmaKind)
    (fileSrc fileOff fileSize segVaddr : Nat) (filePath : Option (List UInt8)) :
    Option (List Vma) :=
  if fin ≤ start then none
  else putVma vs (Vma.make start fin prot kind fileSrc fileOff fileSize segVaddr filePath)

/-- `find_vma` -/
def findVma (va : Nat) : Option Vma :=
  vs.find? (fun v => v.kind ≠ .free ∧ v.start ≤ va ∧ va < v.fin)

/-- A part `[s, en)` of a region that has been taken out is added again, with the place in the file
moved to where the part starts.  When the table is full the part is lost. -/
def readd (orig : Vma) (s en : Nat) (prot : UInt8) : List Vma :=
  if en ≤ s then vs
  else if orig.Backed then
    let segVa := add64 orig.start orig.segPad
    let fileEnd := min (add64 segVa orig.fileSize) en
    let path := if orig.fileSrc ≠ 0 then none else some orig.filePath
    (if s ≤ segVa then
      addVma vs s en prot .file orig.fileSrc orig.fileOff (fileEnd - segVa) segVa path
    else
      addVma vs s en prot .file orig.fileSrc (add64 orig.fileOff (s - segVa)) (fileEnd - s) s
        path).getD vs
  else (addVma vs s en prot orig.kind 0 0 0 0 none).getD vs

/-- The body of the first loop of `pr2_remove_vma_range`, for the slot `i`. -/
def carveVma (lo hi : Nat) (vs : List Vma) (i : Nat) : List Vma :=
  match vs[i]? with
  | none => vs
  | some v =>
    if v.kind = .free ∨ v.fin ≤ lo ∨ hi ≤ v.start then vs
    else if lo ≤ v.start ∧ v.fin ≤ hi then
      vs.set i { v with
        kind := .free, start := 0, fin := 0, fileSrc := 0, fileSize := 0, fileOff := 0, segPad := 0,
        prot := 0 }
    else if v.start < lo ∧ v.fin ≤ hi then vs.set i { v with fin := lo }
    else if lo ≤ v.start ∧ hi < v.fin then
      let shift := hi - v.start
      if v.kind = .file then
        vs.set i { v with
          fileOff := add64 v.fileOff shift, fileSize := v.fileSize - shift,
          segPad := v.segPad - shift, start := hi }
      else vs.set i { v with start := hi }
    else readd (vs.set i { v with fin := lo }) v hi v.fin v.prot

/-- The first loop of `pr2_remove_vma_range`; a slot past the end of the table is passed over. -/
def removeVmas (lo hi : Nat) : List Vma :=
  (List.range kMaxVmas).foldl (carveVma lo hi) vs

/-- The body of the first loop of `pr2_mprotect`, for the slot `i`. -/
def protectVma (lo hi : Nat) (prot : UInt8) (vs : List Vma) (i : Nat) : List Vma :=
  match vs[i]? with
  | none => vs
  | some orig =>
    if orig.kind = .free ∨ hi ≤ orig.start ∨ orig.fin ≤ lo then vs
    else if lo ≤ orig.start ∧ orig.fin ≤ hi then vs.set i { orig with prot := prot }
    else
      let vs := vs.set i { orig with kind := .free }
      let vs := if orig.start < lo then readd vs orig orig.start lo orig.prot else vs
      let vs := readd vs orig (max orig.start lo) (min orig.fin hi) prot
      if hi < orig.fin then readd vs orig hi orig.fin orig.prot else vs

/-- The first loop of `pr2_mprotect`, over the slots that were in use when it began. -/
def protectVmas (lo hi : Nat) (prot : UInt8) : List Vma :=
  (List.range vs.length).foldl (protectVma lo hi prot) vs

end IndexOS.Reality
