import IndexOS.Testament.Tree

/-!
# Removing a mount

`testament_umount` goes through the node table once and frees every slot from which the parent links
lead to the root of the mount.  It follows those links in the table it is clearing, where a freed
slot has no parent any more: a node whose parent comes earlier in the table is cut off by the time
its turn comes, and stays.

* `clearUpTo` is the loop, and `clearUpTo_nodes` says what it has done to each slot;
* `umounts_iff` says when the tree is freed as a whole: every node but the root and its children
  must come before its parent.
-/

set_option autoImplicit false

namespace IndexOS.Testament

open List
open Function (update update_of_ne update_self)
open ParentForest

variable {s : Tmpfs} {point : CString} {root i k : Nat} {p : Nat}

/-- A used node whose parent links lead to `root`. -/
def Below (s : Tmpfs) (root k : Nat) : Prop :=
  (s.nodes k).used = true ∧ ∃ l, Lineage s.parentOf k l ∧ root ∈ l

/-- What `testament_umount` is for: it succeeds, the mount in slot `i` is gone with all of its
nodes, and everything else is as before.  No node is left whose parent is a free slot, below which
it would come up when the slot becomes a directory again. -/
structure Umounts (s : Tmpfs) (i : Nat) (r : Bool × Tmpfs) : Prop where
  returns : r.1 = true
  mounts : r.2.mounts = update s.mounts i {}
  freed : ∀ k, Below s (s.mounts i).root k → r.2.nodes k = {}
  kept : ∀ k, ¬Below s (s.mounts i).root k → r.2.nodes k = s.nodes k
  attached : ∀ k p, (r.2.nodes k).used = true → r.2.parentOf k = some p → (r.2.nodes p).used = true

/-! ## The loop -/

theorem clearUpTo_succ (n : Nat) :
    clearUpTo s root (n + 1) = umountNode root (clearUpTo s root n) n := by
  rw [clearUpTo, range_succ, foldl_append]
  rfl

theorem clearUpTo_mounts (n : Nat) : (clearUpTo s root n).mounts = s.mounts := by
  induction n with
  | zero => rfl
  | succ n ih =>
    rw [clearUpTo_succ, umountNode]
    split <;> exact ih

/-- A slot is decided when its turn comes, and not touched before or after. -/
theorem clearUpTo_nodes (n j : Nat) : (clearUpTo s root n).nodes j =
    if j < n ∧ (s.nodes j).used = true ∧
      meets (clearUpTo s root j).parentOf root kMaxNodes j = true then {} else s.nodes j := by
  induction n generalizing j with
  | zero => rfl
  | succ n ih =>
    have hn : (clearUpTo s root n).nodes n = s.nodes n := by
      rw [ih n, if_neg fun h => Nat.lt_irrefl n h.1]
    rw [clearUpTo_succ, umountNode, hn]
    by_cases hj : j = n
    · subst hj
      simp only [Nat.lt_succ_self, true_and, Bool.and_eq_true]
      split
      · exact update_self ..
      · exact hn
    · have hlt : j < n + 1 ↔ j < n := by omega
      simp only [hlt, ← ih j]
      split
      · exact update_of_ne hj ..
      · rfl

/-- In the table as slot `n` finds it, links are cut below `n` only. -/
theorem clearUpTo_parentOf (n j : Nat) : (clearUpTo s root n).parentOf j = s.parentOf j ∨
    j < n ∧ (clearUpTo s root n).parentOf j = none := by
  rw [Tmpfs.parentOf, clearUpTo_nodes]
  split
  · rename_i h
    exact .inr ⟨h.1, rfl⟩
  · exact .inl rfl

/-! ## When the whole tree goes -/

theorem Below.parent (hb : Below s root k) (h : TreeInv s) (hk : k ≠ root)
    (hp : s.parentOf k = some p) : Below s root p := by
  obtain ⟨hu, l, hl, hr⟩ := hb
  refine ⟨(h.parent k p hu hp).1, ?_⟩
  cases hl with
  | root hnone => rw [hp] at hnone; cases hnone
  | step hstep t =>
    rw [hp, Option.some_inj] at hstep
    subst hstep
    exact ⟨_, t, (mem_cons.1 hr).resolve_left (Ne.symm hk)⟩

theorem Below.child (hu : (s.nodes k).used = true)
    (hp : s.parentOf k = some p) (hb : Below s root p) : Below s root k := by
  obtain ⟨-, l, hl, hr⟩ := hb
  exact ⟨hu, _, Lineage.step hp hl, mem_cons_of_mem _ hr⟩

/-- Where parents come later than their children, slot `k` finds the way to the root as it was. -/
theorem meets_clearUpTo (h : TreeInv s) (hroot : s.parentOf root = none)
    (hlater : ∀ k p, Below s root k → s.parentOf k = some p → p ≠ root → k < p)
    (hu : (s.nodes k).used = true) :
    meets (clearUpTo s root k).parentOf root kMaxNodes k = true ↔ Below s root k := by
  obtain ⟨l, hl⟩ := h.lineage k hu
  have hlen := hl.length_le fun j hj => h.bound j (h.lineage_used hu hl j hj)
  constructor
  · intro hm
    have hcut := meets_of_cut (fun b => (clearUpTo_parentOf k b).imp_right And.right) hm
    exact ⟨hu, l, hl, (meets_iff hl hlen).1 hcut⟩
  · intro hb
    have hmem : root ∈ l := by
      obtain ⟨-, l', hl', hr⟩ := hb
      rwa [hl.unique hl']
    have hup := hl.forall_mem (p := fun x => Below s root x ∧ (x = root ∨ k ≤ x))
      ⟨hb, .inr (Nat.le_refl k)⟩ fun x y hx hxy => by
        have hxr : x ≠ root := by
          rintro rfl
          rw [hroot] at hxy
          cases hxy
        refine ⟨hx.1.parent h hxr hxy, or_iff_not_imp_left.2 fun hy => ?_⟩
        have := hlater x y hx.1 hxy hy
        omega
    refine (meets_iff (hl.congr fun b hb => ?_) hlen).2 hmem
    rcases clearUpTo_parentOf k b with he | ⟨hlt, hcut⟩
    · exact he
    · obtain rfl := (hup b hb).2.resolve_right (by omega)
      rw [hcut, hroot]

/-- What `testament_umount` returns when it finds a mount in slot `i`. -/
structure Cleared (s : Tmpfs) (i : Nat) (r : Bool × Tmpfs) : Prop where
  returns : r.1 = true
  mounts : r.2.mounts = update s.mounts i {}
  nodes : r.2.nodes = (clearUpTo s (s.mounts i).root kMaxNodes).nodes

/-- `testament_umount` finds the first mount at the point. -/
theorem cleared_testamentUmount (hi : i < kMaxMounts) (ha : (s.mounts i).active = true)
    (hp : (s.mounts i).point = point) (hne : point ≠ [])
    (hfirst : ∀ j, j < i → (s.mounts j).active = true → (s.mounts j).point ≠ point) :
    Cleared s i (testamentUmount s point) := by
  have hfind : (range kMaxMounts).find? (fun i => (s.mounts i).active &&
      (s.mounts i).point.length == point.length && pointCovers (s.mounts i).point point) =
      some i := by
    refine find?_range_eq_some.2 ⟨?_, mem_range.2 hi, fun j hj => ?_⟩
    · simp [ha, hp, pointCovers, hne]
    · rw [Bool.not_eq_true', Bool.eq_false_iff]
      intro hc
      simp only [Bool.and_eq_true, beq_iff_eq, pointCovers, isPrefixOf_iff_prefix] at hc
      exact hfirst j hj hc.1.1 (hc.2.1.2.eq_of_length hc.1.2)
  -- for any table, so that nothing unrolls the loop
  have hset : ∀ t : Tmpfs, t.mounts = s.mounts →
      ({ t with mounts := update t.mounts i {} } : Tmpfs).mounts = update s.mounts i {} ∧
      ({ t with mounts := update t.mounts i {} } : Tmpfs).nodes = t.nodes :=
    fun t ht => ⟨by rw [← ht], rfl⟩
  rw [testamentUmount, hfind]
  obtain ⟨hm, hn⟩ := hset _ (clearUpTo_mounts kMaxNodes)
  exact ⟨rfl, hm, hn⟩

section

variable {r : Bool × Tmpfs} (h : TreeInv s) (hi : i < kMaxMounts) (ha : (s.mounts i).active = true)
  (hr : Cleared s i r)
include h hi ha hr

/-- Two nodes of the tree are both freed only if the parent is still there when the turn comes to
the child. -/
theorem Umounts.later (hum : Umounts s i r) (hk : Below s (s.mounts i).root k)
    (hkp : s.parentOf k = some p) (hpr : p ≠ (s.mounts i).root) : k < p := by
  by_contra hle
  have hkr : k ≠ (s.mounts i).root := by
    rintro rfl
    rw [(h.root i hi ha).2.2] at hkp
    cases hkp
  have hpk : p ≠ k := by
    rintro rfl
    obtain ⟨-, l, hl, -⟩ := hk
    simpa using congrArg length ((Lineage.step hkp hl).unique hl)
  have hmet : ∀ j, Below s (s.mounts i).root j →
      meets (clearUpTo s (s.mounts i).root j).parentOf (s.mounts i).root kMaxNodes j = true := by
    intro j hj
    have hfree := hum.freed j hj
    rw [hr.nodes, clearUpTo_nodes] at hfree
    split at hfree
    · rename_i hc
      exact hc.2.2
    · have hu := hj.1
      rw [hfree] at hu
      cases hu
  have hpb := hk.parent h hkr hkp
  have hcut : (clearUpTo s (s.mounts i).root k).parentOf p = none := by
    rw [Tmpfs.parentOf, clearUpTo_nodes, if_pos ⟨by omega, hpb.1, hmet p hpb⟩]
  have hlink : (clearUpTo s (s.mounts i).root k).parentOf k = some p :=
    (clearUpTo_parentOf k k).elim (fun he => he.trans hkp) fun hc => absurd hc.1 (Nat.lt_irrefl k)
  have hlen : [k, p].length ≤ kMaxNodes := by
    have := h.bound k hk.1
    simp only [length_cons, length_nil]
    omega
  have hmem := (meets_iff (.step hlink (.root hcut)) hlen).1 (hmet k hk)
  simp [hkr.symm, hpr.symm] at hmem

theorem Cleared.umounts (hlater : ∀ k p, Below s (s.mounts i).root k → s.parentOf k = some p →
    p ≠ (s.mounts i).root → k < p) : Umounts s i r := by
  have hmet := fun k => meets_clearUpTo (k := k) h (h.root i hi ha).2.2 hlater
  have hfreed : ∀ k, Below s (s.mounts i).root k → r.2.nodes k = {} := by
    intro k hk
    rw [hr.nodes, clearUpTo_nodes, if_pos ⟨h.bound k hk.1, hk.1, (hmet k hk.1).2 hk⟩]
  have hkept : ∀ k, ¬Below s (s.mounts i).root k → r.2.nodes k = s.nodes k := by
    intro k hk
    rw [hr.nodes, clearUpTo_nodes, if_neg fun hc => hk ((hmet k hc.2.1).1 hc.2.2)]
  refine ⟨hr.returns, hr.mounts, hfreed, hkept, fun k p hu hkp => ?_⟩
  have hk : ¬Below s (s.mounts i).root k := by
    intro hk
    rw [hfreed k hk] at hu
    cases hu
  rw [Tmpfs.parentOf, hkept k hk] at hkp
  rw [hkept k hk] at hu
  rw [hkept p fun hp => hk (hp.child hu hkp)]
  exact (h.parent k p hu hkp).1

end

/-- **When umount frees the tree.**  Take tables in order and the first active mount at a point.
`testament_umount` removes that mount with exactly its nodes if and only if every node of the tree
whose parent is not the root comes before its parent in the table. -/
theorem umounts_iff (h : TreeInv s) (hi : i < kMaxMounts) (ha : (s.mounts i).active = true)
    (hp : (s.mounts i).point = point) (hne : point ≠ [])
    (hfirst : ∀ j, j < i → (s.mounts j).active = true → (s.mounts j).point ≠ point) :
    Umounts s i (testamentUmount s point) ↔ ∀ k p, Below s (s.mounts i).root k →
      s.parentOf k = some p → p ≠ (s.mounts i).root → k < p := by
  have hr := cleared_testamentUmount hi ha hp hne hfirst
  exact ⟨fun hum _ _ => hum.later h hi ha hr, hr.umounts h hi ha⟩

/-- `/tmp` with a directory `d` in slot 2 and, below it, a file in slot 1 that was moved there. -/
def movedFile : Tmpfs :=
  (run empty [(⟨0, true⟩, .mount (cstr "/tmp")), (⟨1, true⟩, .create (cstr "/tmp/x")),
    (⟨2, true⟩, .mkdir (cstr "/tmp/d")),
    (⟨3, true⟩, .rename (cstr "/tmp/x") (cstr "/tmp/d/x"))]).getD empty

theorem treeInv_getD (calls : List (Env × Call)) : TreeInv ((run empty calls).getD empty) := by
  cases hr : run empty calls with
  | none => exact treeInv_empty
  | some s => exact run_treeInv calls treeInv_empty hr

theorem umounts_iff_movedFile : Umounts movedFile 0 (testamentUmount movedFile (cstr "/tmp")) := by
  have hinv : TreeInv movedFile := treeInv_getD _
  refine (umounts_iff hinv (by decide +kernel) (by decide +kernel) (by decide +kernel)
    (by decide +kernel) (fun j hj => by omega)).2 fun k p hk hkp hpr => ?_
  have htable : ∀ k < kMaxNodes, (movedFile.nodes k).parent = none ∨
      (movedFile.nodes k).parent = some 0 ∨ k = 1 ∧ (movedFile.nodes k).parent = some 2 := by
    decide +kernel
  rw [Tmpfs.parentOf] at hkp
  rcases htable k (hinv.bound k hk.1) with h0 | h0 | ⟨rfl, h0⟩
  · rw [h0] at hkp
    cases hkp
  · cases h0.symm.trans hkp
    exact absurd (by decide +kernel) hpr
  · cases h0.symm.trans hkp
    decide

/-- `/tmp` with a directory `a` in slot 1 and a file in it in slot 2. -/
def nestedFile : Tmpfs :=
  (run empty [(⟨0, true⟩, .mount (cstr "/tmp")), (⟨1, true⟩, .mkdir (cstr "/tmp/a")),
    (⟨2, true⟩, .create (cstr "/tmp/a/b"))]).getD empty

/-- The directory goes first, and the file in it stays. -/
theorem not_umounts_nestedFile :
    ¬Umounts nestedFile 0 (testamentUmount nestedFile (cstr "/tmp")) := by
  intro hum
  have hinv : TreeInv nestedFile := treeInv_getD _
  have hbelow : Below nestedFile (nestedFile.mounts 0).root 2 :=
    ⟨by decide +kernel, [2, 1, 0], .step (by decide +kernel)
      (.step (by decide +kernel) (.root (by decide +kernel))), by decide +kernel⟩
  have hr : Cleared nestedFile 0 (testamentUmount nestedFile (cstr "/tmp")) :=
    cleared_testamentUmount (by decide +kernel) (by decide +kernel) (by decide +kernel)
      (by decide +kernel) fun j hj => by omega
  have hlt := hum.later hinv (by decide +kernel) (by decide +kernel) hr hbelow
    (show nestedFile.parentOf 2 = some 1 by decide +kernel) (by decide +kernel)
  exact nomatch hlt

end IndexOS.Testament
