import Mathlib.Algebra.GroupWithZero.Nat
import Mathlib.Data.List.Nodup
import Mathlib.Data.List.Perm.Subperm

/-!
# Forests given by parent links

A forest stored as a table of parent links is a partial function `f : α → Option α`.  What makes
such a table a forest is that every walk towards the parents ends, and `Lineage f a l` is exactly
that: `l` is the list of nodes met on the way from `a` to the root above it.

* a lineage is unique (`Lineage.unique`) and repeats no node (`Lineage.nodup`), so inside a table
  of `n` nodes it has at most `n` of them (`Lineage.length_le`);
* `meets f t fuel a` is the loop that looks for `t` among the ancestors of `a`, and `meets_iff`
  says that it computes membership in the lineage;
* `Lineage.relink` gives a node, with everything below it, another link: as long as the node's own
  walk ends, the table stays a forest.
-/

set_option autoImplicit false

namespace ParentForest

open List

variable {α : Type} {f g : α → Option α} {a b : α} {l l' : List α}

/-- The nodes met on the way from `a` to the root above it, `a` first. -/
inductive Lineage (f : α → Option α) : α → List α → Prop
  | root {a : α} (h : f a = none) : Lineage f a [a]
  | step {a b : α} {l : List α} (h : f a = some b) (t : Lineage f b l) : Lineage f a (a :: l)

/-- The `k`-th ancestor. -/
def ancestor (f : α → Option α) : Nat → α → Option α
  | 0, a => some a
  | k + 1, a => (f a).bind (ancestor f k)

theorem Lineage.unique (h : Lineage f a l) : ∀ {l' : List α}, Lineage f a l' → l = l' := by
  induction h with
  | root h =>
    intro l' h'
    cases h' with
    | root => rfl
    | step h1 _ => rw [h] at h1; cases h1
  | step h t ih =>
    intro l' h'
    cases h' with
    | root h1 => rw [h] at h1; cases h1
    | step h1 t1 =>
      rw [h, Option.some_inj] at h1
      subst h1
      rw [ih t1]

open Lineage

/-- Every node of a lineage has its own lineage, the rest of the list from there on. -/
theorem Lineage.of_mem (h : Lineage f a l) (hb : b ∈ l) :
    ∃ l', Lineage f b l' ∧ l'.length ≤ l.length := by
  induction h with
  | root h =>
    rw [mem_singleton] at hb
    subst hb
    exact ⟨_, root h, Nat.le_refl _⟩
  | step h t ih =>
    rcases mem_cons.1 hb with rfl | hb
    · exact ⟨_, step h t, Nat.le_refl _⟩
    · obtain ⟨l', h', hl⟩ := ih hb
      exact ⟨l', h', Nat.le_trans hl (Nat.le_succ _)⟩

/-- A lineage repeats no node: one that came back to itself would never end. -/
theorem Lineage.nodup (h : Lineage f a l) : l.Nodup := by
  induction h with
  | root h => exact nodup_singleton _
  | @step a b l h t ih =>
    refine nodup_cons.2 ⟨fun ha => ?_, ih⟩
    obtain ⟨l', h', hl⟩ := t.of_mem ha
    have := (step h t).unique h'
    rw [← this, length_cons] at hl
    omega

theorem Lineage.self_mem (h : Lineage f a l) : a ∈ l := by
  cases h <;> simp

/-- Inside a table of `n` nodes a lineage has at most `n` of them. -/
theorem Lineage.length_le {f : Nat → Option Nat} {a n : Nat} {l : List Nat} (h : Lineage f a l)
    (hn : ∀ b ∈ l, b < n) : l.length ≤ n := by
  have hsub : l ⊆ range n := fun b hb => mem_range.2 (hn b hb)
  simpa using (subperm_of_subset h.nodup hsub).length_le

/-- The last node of a lineage is a root, and it is reached in as many steps as there are nodes
before it. -/
theorem Lineage.ancestor_root (h : Lineage f a l) :
    ∃ r ∈ l, f r = none ∧ ancestor f (l.length - 1) a = some r := by
  induction h with
  | root h => exact ⟨_, by simp, h, rfl⟩
  | @step a b l h t ih =>
    obtain ⟨r, hr, hroot, hanc⟩ := ih
    have hpos : 0 < l.length := length_pos_of_mem t.self_mem
    refine ⟨r, mem_cons_of_mem _ hr, hroot, ?_⟩
    rw [length_cons, Nat.add_sub_cancel, show l.length = l.length - 1 + 1 by omega, ancestor, h]
    exact hanc

/-- Only the links of the nodes on it matter to a lineage. -/
theorem Lineage.congr (h : Lineage f a l) (hfg : ∀ b ∈ l, g b = f b) : Lineage g a l := by
  induction h with
  | root h => exact root ((hfg _ (by simp)).trans h)
  | step h t ih =>
    exact step ((hfg _ (by simp)).trans h) (ih fun b hb => hfg b (mem_cons_of_mem _ hb))

/-- A property that every parent link respects holds along the lineage. -/
theorem Lineage.forall_mem {p : α → Prop} (h : Lineage f a l) (ha : p a)
    (hp : ∀ x y, p x → f x = some y → p y) : ∀ b ∈ l, p b := by
  induction h with
  | root h => simpa using ha
  | step h t ih =>
    intro b hb
    rcases mem_cons.1 hb with rfl | hb
    · exact ha
    · exact ih (hp _ _ ha h) b hb

section

variable [DecidableEq α]

/-- Does the walk from `a` towards the root meet `t`? -/
def meets (f : α → Option α) (t : α) : Nat → α → Bool
  | 0, _ => false
  | fuel + 1, a =>
    if a = t then true
    else match f a with
      | none => false
      | some b => meets f t fuel b

theorem meets_iff {t : α} (h : Lineage f a l) : ∀ {fuel : Nat}, l.length ≤ fuel →
    (meets f t fuel a = true ↔ t ∈ l) := by
  induction h with
  | @root a h =>
    intro fuel hl
    obtain ⟨k, rfl⟩ : ∃ k, fuel = k + 1 := ⟨fuel - 1, by simp at hl; omega⟩
    by_cases hat : a = t
    · simp [meets, hat]
    · simp [meets, hat, h, Ne.symm hat]
  | @step a b l h t' ih =>
    intro fuel hl
    rw [length_cons] at hl
    obtain ⟨k, rfl⟩ : ∃ k, fuel = k + 1 := ⟨fuel - 1, by omega⟩
    by_cases hat : a = t
    · simp [meets, hat]
    · simp [meets, hat, h, ih (show l.length ≤ k by omega), Ne.symm hat]

/-- A walk on which links have been cut meets no more than before. -/
theorem meets_of_cut {t : α} (hfg : ∀ b, g b = f b ∨ g b = none) : ∀ {fuel : Nat} {a : α},
    meets g t fuel a = true → meets f t fuel a = true
  | 0, _, h => h
  | fuel + 1, a, h => by
    by_cases hat : a = t
    · exact if_pos hat
    · rw [meets, if_neg hat] at h ⊢
      rcases hfg a with he | he
      · rw [he] at h
        cases hb : f a with
        | none => rw [hb] at h; exact h
        | some b => rw [hb] at h; exact meets_of_cut hfg h
      · rw [he] at h
        cases h

/-- A node may get another link: if its own walk ends then, so does everybody's. -/
theorem Lineage.relink {s : α} {v : Option α} {ls : List α}
    (hs : Lineage (Function.update f s v) s ls)
    (h : Lineage f a l) : ∃ l', Lineage (Function.update f s v) a l' := by
  induction h with
  | @root a h =>
    by_cases has : a = s
    · subst has; exact ⟨_, hs⟩
    · exact ⟨[a], root (by rw [Function.update_of_ne has, h])⟩
  | @step a b l h t ih =>
    by_cases has : a = s
    · subst has; exact ⟨_, hs⟩
    · obtain ⟨l', ih⟩ := ih
      exact ⟨_, step (by rw [Function.update_of_ne has, h]) ih⟩

end

end ParentForest
