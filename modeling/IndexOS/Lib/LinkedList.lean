import Mathlib.Data.List.Nodup

/-!
# Lists linked through their own elements

A list of cells in which each cell holds the name of the next one: an allocator's stack of the cells
it has got back, or a file's chain of clusters.  `Linked next stop p l` says that following `next`
from `p` on meets the cells `l`, in this order, and then a name that ends the list.

* `Linked.congr` — what other cells hold does not matter;
* `Linked.nodup` — a list that ends meets no cell twice;
* `Linked.push`, `Linked.pop`, `Linked.snoc` — a cell more in front, one less, and one more behind.
-/

set_option autoImplicit false

namespace IndexOS.LinkedList

open List

variable {α : Type} {next next' : α → α} {stop : α → Prop} {p x : α} {l l' : List α}

/-- From `p` on, `next` leads through the cells of the list and then to an end. -/
def Linked (next : α → α) (stop : α → Prop) : α → List α → Prop
  | p, [] => stop p
  | p, x :: l => p = x ∧ ¬ stop x ∧ Linked next stop (next x) l

section
variable (h : Linked next stop p l)
include h

theorem Linked.congr (heq : ∀ x ∈ l, next' x = next x) :
    Linked next' stop p l := by
  induction l generalizing p with
  | nil => exact h
  | cons y l ih =>
    obtain ⟨rfl, hne, hrest⟩ := h
    refine ⟨rfl, hne, ?_⟩
    rw [heq _ mem_cons_self]
    exact ih hrest fun x hx => heq x (mem_cons_of_mem _ hx)

/-- A cell is put in front. -/
theorem Linked.push (hx : ¬ stop x) (htop : next' x = p)
    (heq : ∀ y ∈ l, next' y = next y) : Linked next' stop x (x :: l) :=
  ⟨rfl, hx, by rw [htop]; exact h.congr heq⟩

/-- The list behind the first cell. -/
theorem Linked.pop (hp : ¬ stop p) :
    ∃ l', l = p :: l' ∧ Linked next stop (next p) l' := by
  cases l with
  | nil => exact absurd h hp
  | cons y l =>
    obtain ⟨rfl, -, hrest⟩ := h
    exact ⟨l, rfl, hrest⟩

theorem Linked.unique (h' : Linked next stop p l') : l = l' := by
  induction l generalizing p l' with
  | nil =>
    cases l' with
    | nil => rfl
    | cons y l' =>
      obtain ⟨rfl, hne, -⟩ := h'
      exact absurd h hne
  | cons y l ih =>
    obtain ⟨rfl, hne, hrest⟩ := h
    obtain ⟨l'', rfl, hrest'⟩ := h'.pop hne
    rw [ih hrest hrest']

end

/-- The list from one of its cells on. -/
theorem Linked.suffix {pre post : List α} (h : Linked next stop p (pre ++ x :: post)) :
    Linked next stop x (x :: post) := by
  induction pre generalizing p with
  | nil =>
    obtain ⟨rfl, h⟩ := h
    exact ⟨rfl, h⟩
  | cons y pre ih => exact ih h.2.2

theorem Linked.not_stop (h : Linked next stop p l) (hx : x ∈ l) : ¬ stop x := by
  obtain ⟨pre, post, rfl⟩ := append_of_mem hx
  exact h.suffix.2.1

theorem Linked.nodup (h : Linked next stop p l) : l.Nodup := by
  induction l generalizing p with
  | nil => exact nodup_nil
  | cons y l ih =>
    refine nodup_cons.mpr ⟨fun hmem => ?_, ih h.2.2⟩
    -- From a second occurrence on the list would be the same as from the first.
    obtain ⟨pre, post, rfl⟩ := append_of_mem hmem
    obtain ⟨rfl, hfirst⟩ := h
    have heq := Linked.unique (l := _ :: (pre ++ _ :: post)) ⟨rfl, hfirst⟩ hfirst.2.suffix
    have hlen := congrArg length heq
    simp only [length_cons, length_append] at hlen
    omega

/-- The last cell is made to lead to one more. -/
theorem Linked.snoc {pre : List α} {t c : α} (h : Linked next stop p (pre ++ [t]))
    (heq : ∀ y ∈ pre, next' y = next y) (ht : next' t = c) (hc : ¬ stop c) (hend : stop (next' c)) :
    Linked next' stop p (pre ++ [t] ++ [c]) := by
  induction pre generalizing p with
  | nil =>
    obtain ⟨rfl, hne, -⟩ := h
    exact ⟨rfl, hne, by rw [ht]; exact ⟨rfl, hc, hend⟩⟩
  | cons y pre ih =>
    obtain ⟨rfl, hne, hrest⟩ := h
    refine ⟨rfl, hne, ?_⟩
    rw [heq _ mem_cons_self]
    exact ih hrest fun z hz => heq z (mem_cons_of_mem _ hz)

end IndexOS.LinkedList
