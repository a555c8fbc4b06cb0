import Mathlib.Data.List.Basic

/-!
# Files as strings

What a file is for its clients: a string of bytes that can be cut or extended with zeros
(`resize`) and overwritten at an offset (`overwrite`).  The byte type and its zero are parameters.

A filesystem seldom holds that string as such.  It holds a buffer with spare room, of which the
first `size` bytes are the file; `resize_take` and `overwrite_take` say what has to be true of the
spare room when the size changes.
-/

set_option autoImplicit false

namespace IndexOS.ByteString

open List

variable {α : Type} {z : α} {xs ys buf : List α} {n off size : Nat}

/-- Keep the first `n` bytes, and fill up with zeros to `n`. -/
def resize (z : α) (n : Nat) (xs : List α) : List α := xs.take n ++ replicate (n - xs.length) z

/-- Zero-extend to `off` if the string is shorter, then put `ys` at `off`. -/
def overwrite (z : α) (xs : List α) (off : Nat) (ys : List α) : List α :=
  resize z off xs ++ ys ++ xs.drop (off + ys.length)

theorem resize_of_le (h : n ≤ xs.length) : resize z n xs = xs.take n := by
  rw [resize, Nat.sub_eq_zero_of_le h, replicate_zero, append_nil]

/-! ## A buffer with spare room -/

/-- Zeros between the old and the new end are all a growing file needs. -/
theorem resize_take (hsize : size ≤ buf.length) (hn : n ≤ buf.length)
    (hz : ∀ x ∈ (buf.take n).drop size, x = z) : resize z n (buf.take size) = buf.take n := by
  by_cases hle : n ≤ size
  · rw [resize_of_le (by rw [length_take]; omega), take_take, Nat.min_eq_left hle]
  · have hlen : ((buf.take n).drop size).length = n - size := by
      rw [length_drop, length_take]
      omega
    -- the buffer up to `n` is the old file and the bytes after it, which are zero
    calc resize z n (buf.take size)
        = buf.take size ++ replicate (n - size) z := by
          rw [resize, length_take, take_take, Nat.min_eq_right (by omega),
            Nat.min_eq_left hsize]
      _ = (buf.take n).take size ++ (buf.take n).drop size := by
          rw [take_take, Nat.min_eq_left (by omega), eq_replicate_of_mem hz, hlen]
      _ = buf.take n := take_append_drop _ _

/-- A write at an offset into a buffer whose bytes between the end of the file and the offset are
zero. -/
theorem overwrite_take (hsize : size ≤ buf.length) (hoff : off + ys.length ≤ buf.length)
    (hz : ∀ x ∈ (buf.take off).drop size, x = z) :
    overwrite z (buf.take size) off ys =
      (buf.take off ++ ys ++ buf.drop (off + ys.length)).take (max (off + ys.length) size) := by
  rw [overwrite, resize_take hsize (by omega) hz]
  have hpre : (buf.take off ++ ys).length = off + ys.length := by
    rw [length_append, length_take]
    omega
  have hall : (buf.take off ++ ys).take (max (off + ys.length) size) = buf.take off ++ ys :=
    take_of_length_le (by omega)
  rw [take_append, hall, drop_take]
  congr 2
  omega

end IndexOS.ByteString
