import Mathlib.Algebra.GroupWithZero.Nat

/-!
# Little-endian fields of byte buffers

A buffer is a function from positions to bytes; how long it is, is the business of its owner.
`rd16`, `rd32`, `wr16` and `wr32` are the usual little-endian accessors, `copyInto` is what a
copying loop does.  Reading back a field that has been written gives its value (`rd16_wr16_self`),
reading one that does not overlap it gives what was there before (`rd16_wr16_of_disjoint`).
-/

set_option autoImplicit false

namespace IndexOS.LittleEndian

/-- A byte buffer. -/
abbrev Buf := Nat → UInt8

variable {p q : Buf} {i j v n : Nat}

def rd16 (p : Buf) (i : Nat) : Nat := (p i).toNat + 256 * (p (i + 1)).toNat

def rd32 (p : Buf) (i : Nat) : Nat :=
  (p i).toNat + 256 * (p (i + 1)).toNat + 65536 * (p (i + 2)).toNat + 16777216 * (p (i + 3)).toNat

def wr16 (p : Buf) (i v : Nat) : Buf := fun j =>
  if j = i then UInt8.ofNat v
  else if j = i + 1 then UInt8.ofNat (v / 256)
  else p j

def wr32 (p : Buf) (i v : Nat) : Buf := fun j =>
  if j = i then UInt8.ofNat v
  else if j = i + 1 then UInt8.ofNat (v / 256)
  else if j = i + 2 then UInt8.ofNat (v / 65536)
  else if j = i + 3 then UInt8.ofNat (v / 16777216)
  else p j

/-- `for (k = 0; k < n; ++k) dst[d + k] = src[s + k]` -/
def copyInto (dst : Buf) (d : Nat) (src : Buf) (s n : Nat) : Buf := fun j =>
  if d ≤ j ∧ j < d + n then src (s + (j - d)) else dst j

theorem rd16_lt (p : Buf) (i : Nat) : rd16 p i < 2 ^ 16 := by
  have h0 := (p i).toNat_lt
  have h1 := (p (i + 1)).toNat_lt
  rw [rd16]
  omega

theorem rd32_lt (p : Buf) (i : Nat) : rd32 p i < 2 ^ 32 := by
  have h0 := (p i).toNat_lt
  have h1 := (p (i + 1)).toNat_lt
  have h2 := (p (i + 2)).toNat_lt
  have h3 := (p (i + 3)).toNat_lt
  rw [rd32]
  omega

/-- A field depends on its own bytes only. -/
theorem rd16_congr (h : ∀ k, k < 2 → p (i + k) = q (j + k)) : rd16 p i = rd16 q j := by
  have h0 := h 0 (by omega)
  have h1 := h 1 (by omega)
  simp only [Nat.add_zero] at h0
  rw [rd16, rd16, h0, h1]

theorem rd32_congr (h : ∀ k, k < 4 → p (i + k) = q (j + k)) : rd32 p i = rd32 q j := by
  have h0 := h 0 (by omega)
  have h1 := h 1 (by omega)
  have h2 := h 2 (by omega)
  have h3 := h 3 (by omega)
  simp only [Nat.add_zero] at h0
  rw [rd32, rd32, h0, h1, h2, h3]

theorem wr16_of_disjoint (h : j < i ∨ i + 2 ≤ j) : wr16 p i v j = p j := by
  rw [wr16, if_neg (by omega), if_neg (by omega)]

theorem wr32_of_disjoint (h : j < i ∨ i + 4 ≤ j) : wr32 p i v j = p j := by
  rw [wr32, if_neg (by omega), if_neg (by omega), if_neg (by omega), if_neg (by omega)]

@[simp] theorem rd16_wr16_self : rd16 (wr16 p i v) i = v % 2 ^ 16 := by
  have h0 : wr16 p i v i = UInt8.ofNat v := if_pos rfl
  have h1 : wr16 p i v (i + 1) = UInt8.ofNat (v / 256) := by
    rw [wr16, if_neg (by omega), if_pos rfl]
  rw [rd16, h0, h1, UInt8.toNat_ofNat', UInt8.toNat_ofNat']
  omega

theorem rd16_wr32_of_disjoint (h : j + 2 ≤ i ∨ i + 4 ≤ j) : rd16 (wr32 p i v) j = rd16 p j :=
  rd16_congr fun _ _ => wr32_of_disjoint (by omega)

theorem rd16_wr16_of_disjoint (h : j + 2 ≤ i ∨ i + 2 ≤ j) : rd16 (wr16 p i v) j = rd16 p j :=
  rd16_congr fun _ _ => wr16_of_disjoint (by omega)

/-- A copy from start to start. -/
theorem copyInto_zero (h : j < n) : copyInto p 0 q 0 n j = q j := by
  rw [copyInto, if_pos (by omega), Nat.zero_add, Nat.sub_zero]

theorem copyInto_of_not_mem {d s : Nat} (h : j < d ∨ d + n ≤ j) :
    copyInto p d q s n j = p j := by
  rw [copyInto, if_neg (by omega)]

end IndexOS.LittleEndian
