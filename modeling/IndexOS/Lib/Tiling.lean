import Mathlib.Algebra.GroupWithZero.Nat
import Mathlib.Data.List.Chain
import Mathlib.Algebra.BigOperators.Group.List.Basic

/-!
# Tilings of an interval by headed cells

A boundary-tag allocator keeps its arena cut into *cells*: a header of `hd` bytes followed by a
payload, the next header sitting right after the payload.  Nothing in this file mentions an
allocator.  It is the algebra of the lists of cells such a walk produces:

* `Tiles hd o cs e` — the cells `cs` follow one another without a gap from `o` to `e`;
* `merge hd cs` — the list after every run of neighbouring free cells has been joined into one;
* `NoAdjFree cs` — no two neighbours are both free.

Merging leaves the occupied cells exactly as they were (`used_merge`) and always reaches `NoAdjFree`
(`noAdjFree_merge`).  The payoff is `eq_single_of_used_nil`: a merged tiling without an occupied
cell is one single free cell.
-/

set_option autoImplicit false

namespace Tiling

open List

/-- A header at `off`, followed by `size` bytes of payload. -/
structure Cell where
  /-- Where the header starts. -/
  off : Nat
  /-- Length of the payload. -/
  size : Nat
  /-- Whether the payload is available. -/
  free : Bool
  deriving DecidableEq, Repr

/-- The cells `cs` follow one another without a gap from `o` to `e`. -/
def Tiles (hd : Nat) : Nat → List Cell → Nat → Prop
  | o, [], e => o = e
  | o, c :: cs, e => c.off = o ∧ Tiles hd (o + hd + c.size) cs e

/-- No two neighbours are both free. -/
def NoAdjFree (cs : List Cell) : Prop := cs.IsChain fun c d => ¬ (c.free = true ∧ d.free = true)

/-- The occupied cells. -/
def used (cs : List Cell) : List Cell := cs.filter fun c => !c.free

/-- Join every run of neighbouring free cells into one, from the left. -/
def merge (hd : Nat) : List Cell → List Cell
  | [] => []
  | [c] => [c]
  | c :: d :: cs =>
    if c.free = true ∧ d.free = true then merge hd (⟨c.off, c.size + hd + d.size, true⟩ :: cs)
    else c :: merge hd (d :: cs)
  termination_by cs => cs.length

variable {hd o e : Nat} {c d : Cell} {cs ds : List Cell}

/-! ## Tilings -/

theorem Tiles.le : ∀ {o : Nat} {cs : List Cell}, Tiles hd o cs e → o ≤ e
  | _, [], h => Nat.le_of_eq h
  | _, _ :: _, h => by have := Tiles.le h.2; omega

/-- The cells of a tiling add up to the interval. -/
theorem Tiles.sum_eq : ∀ {o : Nat} {cs : List Cell}, Tiles hd o cs e →
    o + (cs.map fun c => hd + c.size).sum = e
  | _, [], h => by simpa using (show _ = _ from h)
  | _, c :: cs, h => by
    have := Tiles.sum_eq h.2
    simp only [map_cons, sum_cons]
    omega

/-- Every cell of a tiling lies inside the interval. -/
theorem Tiles.bounds : ∀ {o : Nat} {cs : List Cell}, Tiles hd o cs e → c ∈ cs →
    o ≤ c.off ∧ c.off + hd + c.size ≤ e
  | _, d :: _, h, hc => by
    rcases mem_cons.1 hc with rfl | hc
    · have := Tiles.le h.2
      have := h.1
      omega
    · have := Tiles.bounds h.2 hc
      omega

/-- The cells of a tiling come in the order of their addresses, and none overlaps the next. -/
theorem Tiles.pairwise : ∀ {o : Nat} {cs : List Cell}, Tiles hd o cs e →
    cs.Pairwise fun c d => c.off + hd + c.size ≤ d.off
  | _, [], _ => Pairwise.nil
  | _, c :: cs, h => by
    refine pairwise_cons.2 ⟨fun d hd' => ?_, Tiles.pairwise h.2⟩
    have := (Tiles.bounds h.2 hd').1
    rw [h.1]
    exact this

/-- Two different cells of a tiling never share a byte. -/
theorem Tiles.disjoint (h : Tiles hd o cs e) (hc : c ∈ cs) (hd' : d ∈ cs)
    (hne : c ≠ d) : c.off + hd + c.size ≤ d.off ∨ d.off + hd + d.size ≤ c.off := by
  have hw := h.pairwise
  clear h
  induction cs with
  | nil => simp at hc
  | cons x xs ih =>
    obtain ⟨hx, hxs⟩ := pairwise_cons.1 hw
    rcases mem_cons.1 hc with hcx | hcx <;> rcases mem_cons.1 hd' with hdx | hdx
    · exact absurd (hcx.trans hdx.symm) hne
    · subst hcx; exact Or.inl (hx d hdx)
    · subst hdx; exact Or.inr (hx c hcx)
    · exact ih hcx hdx hxs

theorem Tiles.off_inj (hhd : 0 < hd) (h : Tiles hd o cs e) (hc : c ∈ cs) (hd' : d ∈ cs)
    (hoff : c.off = d.off) : c = d := by
  by_contra hne
  have := h.disjoint hc hd' hne
  omega

/-- A header of positive length bounds the number of cells. -/
theorem Tiles.length_mul_le : ∀ {o : Nat} {cs : List Cell}, Tiles hd o cs e →
    o + hd * cs.length ≤ e
  | _, [], h => by simpa using Nat.le_of_eq h
  | _, c :: cs, h => by
    have := Tiles.length_mul_le h.2
    rw [length_cons, Nat.mul_succ]
    omega

theorem Tiles.append : ∀ {o m : Nat} {cs ds : List Cell}, Tiles hd o cs m → Tiles hd m ds e →
    Tiles hd o (cs ++ ds) e
  | _, _, [], _, h, h' => by rw [show _ = _ from h]; exact h'
  | _, _, _ :: _, _, h, h' => ⟨h.1, Tiles.append h.2 h'⟩

theorem Tiles.split : ∀ {o : Nat} {cs ds : List Cell}, Tiles hd o (cs ++ ds) e →
    ∃ m, Tiles hd o cs m ∧ Tiles hd m ds e
  | o, [], _, h => ⟨o, rfl, h⟩
  | _, _ :: _, _, h => by
    obtain ⟨m, h1, h2⟩ := Tiles.split h.2
    exact ⟨m, ⟨h.1, h1⟩, h2⟩

/-! ## Neighbours -/

/-- Occupying a free cell, and possibly splitting a free remainder off it, makes no new pair of
free neighbours: the cell next to a free one is occupied already. -/
theorem NoAdjFree.occupy {pre post : List Cell} {x : Cell} (h : NoAdjFree (pre ++ c :: post))
    (hc : c.free = true) (hx : x.free = false) (rest : List Cell) (hrest : NoAdjFree rest) :
    NoAdjFree (pre ++ x :: (rest ++ post)) := by
  obtain ⟨hpre, hpost, -⟩ := isChain_append.1 h
  obtain ⟨hhead, hpost⟩ := isChain_cons.1 hpost
  have hhead' : ∀ y ∈ post.head?, y.free = false := by
    intro y hy
    simpa [hc] using hhead y hy
  refine isChain_append.2 ⟨hpre, isChain_cons.2 ⟨fun y _ => by simp [hx], ?_⟩, ?_⟩
  · refine isChain_append.2 ⟨hrest, hpost, fun a _ y hy => ?_⟩
    simp [hhead' y hy]
  · intro a _ y hy
    simp only [head?_cons, Option.mem_some_iff] at hy
    simp [← hy, hx]

/-! ## Merging -/

theorem merge_cons_of_not_free (h : c.free = false) : merge hd (c :: cs) = c :: merge hd cs := by
  cases cs with
  | nil => simp [merge]
  | cons d ds => rw [merge, if_neg (by simp [h])]

theorem merge_cons_cons_of_free (h : c.free = true) (h' : d.free = true) :
    merge hd (c :: d :: cs) = merge hd (⟨c.off, c.size + hd + d.size, true⟩ :: cs) := by
  rw [merge, if_pos ⟨h, h'⟩]

/-- A cell that is not followed by a free one is left alone. -/
theorem merge_cons_of_head (h : ∀ d ∈ cs.head?, d.free = false) :
    merge hd (c :: cs) = c :: merge hd cs := by
  cases cs with
  | nil => simp [merge]
  | cons d ds => rw [merge, if_neg (by simp [h d (by simp)])]

theorem used_cons (c : Cell) (cs : List Cell) : used (c :: cs) = used [c] ++ used cs := by
  rw [used, used, used, ← filter_append, singleton_append]

/-- Merging leaves the occupied cells as they were. -/
theorem used_merge : used (merge hd cs) = used cs := by
  fun_induction merge hd cs with
  | case1 => rfl
  | case2 c => rfl
  | case3 c d cs hfree ih => rw [ih]; simp [used, hfree.1, hfree.2]
  | case4 c d cs hfree ih => rw [used_cons, ih, ← used_cons]

/-- The first cell of a merged list is free only if the first cell of the list was. -/
theorem head_merge (hd : Nat) (cs : List Cell) :
    ∀ x ∈ (merge hd cs).head?, ∃ c ∈ cs.head?, x.free = c.free := by
  fun_induction merge hd cs with
  | case1 => simp
  | case2 c => simp
  | case3 c d cs hfree ih =>
    intro x hx
    obtain ⟨y, hy, hxy⟩ := ih x hx
    simp only [head?_cons, Option.mem_some_iff] at hy
    subst hy
    exact ⟨c, by simp, by rw [hxy, hfree.1]⟩
  | case4 c d cs hfree ih => simp

/-- After merging no two neighbours are free. -/
theorem noAdjFree_merge : NoAdjFree (merge hd cs) := by
  fun_induction merge hd cs with
  | case1 => exact IsChain.nil
  | case2 c => exact List.IsChain.singleton c
  | case3 c d cs hfree ih => exact ih
  | case4 c d cs hfree ih =>
    cases hm : merge hd (d :: cs) with
    | nil => exact List.IsChain.singleton c
    | cons x xs =>
      rw [hm] at ih
      obtain ⟨y, hy, hxy⟩ := head_merge hd (d :: cs) x (by simp [hm])
      simp only [head?_cons, Option.mem_some_iff] at hy
      subst hy
      refine isChain_cons_cons.2 ⟨fun h => hfree ⟨h.1, ?_⟩, ih⟩
      rw [← hxy, h.2]

/-- Merging keeps a property of payload lengths that joining two cells keeps. -/
theorem forall_size_merge {p : Nat → Prop} (hp : ∀ a b, p a → p b → p (a + hd + b))
    (h : ∀ c ∈ cs, p c.size) : ∀ c ∈ merge hd cs, p c.size := by
  fun_induction merge hd cs with
  | case1 => exact h
  | case2 c => exact h
  | case3 c d cs hfree ih =>
    refine ih fun x hx => ?_
    rcases mem_cons.1 hx with rfl | hx
    · exact hp _ _ (h c (by simp)) (h d (by simp))
    · exact h x (by simp [hx])
  | case4 c d cs hfree ih =>
    intro x hx
    rcases mem_cons.1 hx with rfl | hx
    · exact h x (by simp)
    · exact ih (fun y hy => h y (mem_cons_of_mem _ hy)) x hx

/-- A tiling with nothing occupied and no two free neighbours is one free cell. -/
theorem eq_single_of_used_nil (h : Tiles hd o cs e) (hlt : o < e) (hn : NoAdjFree cs)
    (hu : used cs = []) : cs = [⟨o, e - o - hd, true⟩] := by
  have hfree : ∀ c ∈ cs, c.free = true := by
    intro c hc
    by_contra hf
    have : c ∈ used cs := by simpa [used, hc] using hf
    simp [hu] at this
  match cs, h, hn, hfree with
  | [], h, _, _ => exact absurd h (by simp only [Tiles]; omega)
  | [c], h, _, hf =>
    have h2 : o + hd + c.size = e := h.2
    have hc : c = ⟨c.off, c.size, c.free⟩ := rfl
    rw [hc, h.1, hf c (by simp), show c.size = e - o - hd by omega]
  | c :: d :: _, _, hn,
    hf => exact absurd ⟨hf c (by simp), hf d (by simp)⟩ (isChain_cons_cons.1 hn).1

end Tiling
