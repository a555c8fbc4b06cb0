import Mathlib.Data.List.Basic
import Mathlib.Data.Nat.ModEq

/-!
# Ring buffers

A fixed array with the place of the next element to take, the place of the next one to put and the
number of elements in between.  Nothing is checked by `put` and `get` themselves; who uses them
looks at `avail` first.

* `RingBuffer`, `put`, `get`, and the loops `putAll` and `takeN`;
* `contents` — the elements that are in it, the oldest first;
* `Tidy` — the three numbers agree; `put`, `get` and the loops keep them so, and are append and drop
  on `contents`.
-/

set_option autoImplicit false

namespace IndexOS

open List

/-- An array of `n` places used in turn. -/
structure RingBuffer (α : Type) (n : Nat) where
  buf : Nat → α
  head : Nat := 0
  tail : Nat := 0
  avail : Nat := 0

namespace RingBuffer

variable {α : Type} {n : Nat}

def put (r : RingBuffer α n) (a : α) : RingBuffer α n :=
  { r with buf := Function.update r.buf r.tail a, tail := (r.tail + 1) % n, avail := r.avail + 1 }

def get (r : RingBuffer α n) : α × RingBuffer α n :=
  (r.buf r.head, { r with head := (r.head + 1) % n, avail := r.avail - 1 })

def putAll (r : RingBuffer α n) (l : List α) : RingBuffer α n := l.foldl put r

def takeN (r : RingBuffer α n) : Nat → List α × RingBuffer α n
  | 0 => ([], r)
  | k + 1 => (r.get.1 :: (r.get.2.takeN k).1, (r.get.2.takeN k).2)

/-- The elements in the buffer, the oldest first. -/
def contents (r : RingBuffer α n) : List α := (range r.avail).map fun k => r.buf ((r.head + k) % n)

/-- The next place to put is as far from the next one to take as there are elements. -/
structure Tidy (r : RingBuffer α n) : Prop where
  head_lt : r.head < n
  avail_le : r.avail ≤ n
  tail_eq : r.tail = (r.head + r.avail) % n

variable {r : RingBuffer α n}

theorem length_contents (r : RingBuffer α n) : r.contents.length = r.avail := by simp [contents]

theorem contents_eq_nil (h : r.avail = 0) : r.contents = [] := by simp [contents, h]

theorem tidy_empty (buf : Nat → α) (hn : 0 < n) : Tidy ({ buf := buf } : RingBuffer α n) :=
  ⟨hn, Nat.zero_le n, (Nat.zero_mod n).symm⟩

/-- Two places at different distances from the head are different. -/
theorem place_inj {h j k : Nat} (hj : j < n) (hk : k < n) (heq : (h + j) % n = (h + k) % n) :
    j = k := by
  have hmod : j ≡ k [MOD n] := Nat.ModEq.add_left_cancel' h heq
  exact hmod.eq_of_lt_of_lt hj hk

theorem Tidy.put (h : Tidy r) (hfree : r.avail < n) (a : α) : Tidy (r.put a) := by
  refine ⟨h.head_lt, hfree, ?_⟩
  rw [RingBuffer.put]
  rw [h.tail_eq, Nat.mod_add_mod, Nat.add_assoc]

theorem contents_put (h : Tidy r) (hfree : r.avail < n) (a : α) :
    (r.put a).contents = r.contents ++ [a] := by
  rw [contents, put]
  dsimp only
  rw [range_succ, map_append, map_singleton, h.tail_eq, Function.update_self]
  congr 1
  refine map_congr_left fun k hk => Function.update_of_ne (fun heq => ?_) _ _
  rw [mem_range] at hk
  exact absurd (place_inj (by omega) hfree heq) (by omega)

theorem Tidy.get (h : Tidy r) (hne : 0 < r.avail) : Tidy r.get.2 := by
  have hn : 0 < n := Nat.lt_of_lt_of_le hne h.avail_le
  have hle := h.avail_le
  refine ⟨Nat.mod_lt _ hn, Nat.le_trans (Nat.sub_le _ _) hle, ?_⟩
  rw [RingBuffer.get]
  dsimp only
  rw [h.tail_eq, Nat.mod_add_mod]
  congr 1
  omega

theorem contents_get (hne : 0 < r.avail) (h : Tidy r) :
    r.contents = r.get.1 :: r.get.2.contents := by
  obtain ⟨k, hk⟩ : ∃ k, r.avail = k + 1 := ⟨r.avail - 1, by omega⟩
  rw [contents, get, contents]
  dsimp only
  rw [hk, range_succ_eq_map, map_cons, map_map, Nat.add_zero,
    Nat.mod_eq_of_lt h.head_lt]
  congr 1
  refine map_congr_left fun j _ => ?_
  rw [Function.comp_apply, Nat.mod_add_mod]
  congr 2
  omega

theorem avail_putAll (l : List α) (r : RingBuffer α n) :
    (r.putAll l).avail = r.avail + l.length := by
  induction l generalizing r with
  | nil => rfl
  | cons a rest ih =>
    rw [putAll, foldl_cons, ← putAll, ih, length_cons, put]
    dsimp only
    omega

theorem length_takeN (k : Nat) (r : RingBuffer α n) : (r.takeN k).1.length = k := by
  induction k generalizing r with
  | zero => rfl
  | succ k ih => rw [takeN, length_cons, ih]

/-- As many elements as there is room for are put. -/
theorem putAll_spec (l : List α) (h : Tidy r) (hfree : r.avail + l.length ≤ n) :
    Tidy (r.putAll l) ∧ (r.putAll l).contents = r.contents ++ l := by
  induction l generalizing r with
  | nil => exact ⟨h, by simp [putAll]⟩
  | cons a rest ih =>
    rw [length_cons] at hfree
    have hput : r.avail < n := by omega
    obtain ⟨htidy, hcontents⟩ := ih (h.put hput a) (show r.avail + 1 + rest.length ≤ n by omega)
    refine ⟨htidy, ?_⟩
    rw [putAll, foldl_cons, ← putAll, hcontents, contents_put h hput, append_assoc,
      singleton_append]

/-- As many elements are taken as there are. -/
theorem takeN_spec (k : Nat) (h : Tidy r) (hk : k ≤ r.avail) :
    Tidy (r.takeN k).2 ∧ (r.takeN k).1.length = k ∧
      r.contents = (r.takeN k).1 ++ (r.takeN k).2.contents := by
  induction k generalizing r with
  | zero => exact ⟨h, rfl, rfl⟩
  | succ k ih =>
    have hne : 0 < r.avail := by omega
    obtain ⟨htidy, hlength, hcontents⟩ := ih (h.get hne) (show k ≤ r.avail - 1 by omega)
    refine ⟨htidy, ?_, ?_⟩
    · rw [takeN, length_cons, hlength]
    · rw [contents_get hne h, hcontents, takeN, cons_append]

end RingBuffer

end IndexOS
