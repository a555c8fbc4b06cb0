import Mathlib.Algebra.BigOperators.Fin
import Mathlib.Algebra.Order.BigOperators.Group.Finset

/-!
# Weights summed over a table

A table is a function on finitely many places, and `tally w g` is what its entries weigh together. 
The rules here say how that changes when one entry does, and bound it.

* `tally_update` — one entry is replaced;
* `tally_congr`, `tally_same` — nothing that is weighed changes;
* `tally_eq_zero`, `le_tally`, `exists_of_tally_pos`, `tally_le` — an entry and the whole.
-/

set_option autoImplicit false

namespace IndexOS

open Finset

variable {ι α : Type} [Fintype ι]

/-- What the entries of the table `g` weigh together. -/
def tally (w : ι → α → Nat) (g : ι → α) : Nat := ∑ i, w i (g i)

variable {w w' : ι → α → Nat} {g g' : ι → α}

theorem tally_congr (h : ∀ i, w i (g i) = w' i (g' i)) : tally w g = tally w' g' :=
  sum_congr rfl fun i _ => h i

theorem tally_update [DecidableEq ι] (w : ι → α → Nat) (g : ι → α) (i : ι) (v : α) :
    tally w (Function.update g i v) + w i (g i) = tally w g + w i v := by
  have hsplit : ∀ h : ι → α, tally w h = w i (h i) + ∑ j ∈ univ.erase i, w j (h j) := fun h =>
    (add_sum_erase univ (fun j => w j (h j)) (mem_univ i)).symm
  have hrest : ∑ j ∈ univ.erase i, w j (Function.update g i v j) =
      ∑ j ∈ univ.erase i, w j (g j) := by
    apply sum_congr rfl
    intro j hj
    rw [Function.update_of_ne (ne_of_mem_erase hj)]
  rw [hsplit (Function.update g i v), hsplit g, Function.update_self]
  omega

/-- An entry is replaced by one that weighs the same. -/
theorem tally_same [DecidableEq ι] {i : ι} {v : α} (h : w i v = w i (g i)) :
    tally w (Function.update g i v) = tally w g := by
  have := tally_update w g i v
  omega

theorem tally_eq_zero (h : ∀ i, w i (g i) = 0) : tally w g = 0 :=
  sum_eq_zero fun i _ => h i

theorem le_tally (w : ι → α → Nat) (g : ι → α) (i : ι) : w i (g i) ≤ tally w g :=
  single_le_sum (f := fun j => w j (g j)) (fun _ _ => Nat.zero_le _) (mem_univ i)

theorem exists_of_tally_pos (h : 0 < tally w g) : ∃ i, 0 < w i (g i) := by
  by_contra hne
  have hzero : tally w g = 0 := tally_eq_zero fun i => by
    have := not_exists.1 hne i
    omega
  omega

theorem tally_le {b : Nat} (h : ∀ i, w i (g i) ≤ b) : tally w g ≤ Fintype.card ι * b := by
  have := sum_le_card_nsmul univ (fun i => w i (g i)) b fun i _ => h i
  simpa [tally] using this

end IndexOS
