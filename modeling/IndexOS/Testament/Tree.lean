import IndexOS.Testament.Tmpfs

/-!
# The tmpfs tree

The nodes of all tmpfs mounts live in one table, so nothing but the discipline of the operations
keeps the parent links a forest.  `TreeInv` is that discipline, and this file proves that every
operation keeps it.

The operations change the table in few ways, one slot at a time, and there is one lemma for each:

* `TreeInv.replace` — a slot gets any node that fits, which the others are cases of;
* `TreeInv.setContents` — a node's data or attributes change, its place does not;
* `TreeInv.insert` — an unused slot becomes a child of a directory;
* `TreeInv.remove` — a node without children disappears;
* `TreeInv.move` — a node gets a new parent and a new name;
* `TreeInv.newRoot` — an unused slot becomes the root of a new mount.

What the operations have to check for these to apply is supplied by the lemmas on path
resolution: `resolve_used`, `resolveParent_spec` and `lookupChild_eq_none`.
-/

set_option autoImplicit false

namespace IndexOS.Testament

open List Tmpfs
open Function (update update_eq_self update_idem update_of_ne update_self)
open ParentForest

variable {pos : Nat} {s₁ : Tmpfs} {name : CString} {i : Nat} {n : TmNode}

/-- The buffer of a node is as long as it claims, and holds the file. -/
structure BufOk (n : TmNode) : Prop where
  /-- The file fits. -/
  le : n.size ≤ n.cap
  /-- The buffer, if there is one, has `cap` bytes; without one `cap` is 0. -/
  len : (n.data.getD []).length = n.cap

/-- The tree invariant. -/
structure TreeInv (s : Tmpfs) : Prop where
  /-- Only slots of the table are used. -/
  bound : ∀ i, (s.nodes i).used = true → i < kMaxNodes
  /-- A mount's root is a used directory without a parent. -/
  root : ∀ m, m < kMaxMounts → (s.mounts m).active = true →
    (s.nodes (s.mounts m).root).used = true ∧ (s.nodes (s.mounts m).root).isDir = true ∧
      s.parentOf (s.mounts m).root = none
  /-- No two mounts share a root. -/
  rootInj : ∀ m m', m < kMaxMounts → m' < kMaxMounts → (s.mounts m).active = true →
    (s.mounts m').active = true → (s.mounts m).root = (s.mounts m').root → m = m'
  /-- A used node without a parent is a mount's root. -/
  orphan : ∀ i, (s.nodes i).used = true → s.parentOf i = none →
    ∃ m, m < kMaxMounts ∧ (s.mounts m).active = true ∧ (s.mounts m).root = i
  /-- A parent is a used directory. -/
  parent : ∀ i p, (s.nodes i).used = true → s.parentOf i = some p →
    (s.nodes p).used = true ∧ (s.nodes p).isDir = true
  /-- Every walk towards the parents ends. -/
  lineage : ∀ i, (s.nodes i).used = true → ∃ l, Lineage s.parentOf i l
  /-- Siblings have different names. -/
  siblings : ∀ i j p, (s.nodes i).used = true → (s.nodes j).used = true →
    s.parentOf i = some p → s.parentOf j = some p → (s.nodes i).name = (s.nodes j).name → i = j
  /-- A child has a name. -/
  named : ∀ i p, (s.nodes i).used = true → s.parentOf i = some p → (s.nodes i).name ≠ []
  /-- Every buffer holds its file. -/
  buf : ∀ i, BufOk (s.nodes i)

variable {s s' : Tmpfs}

theorem bufOk_default : BufOk {} := ⟨Nat.le_refl _, rfl⟩

theorem treeInv_empty : TreeInv empty := by
  constructor <;> simp [empty, bufOk_default]

/-- The lineage of a used node consists of used nodes. -/
theorem TreeInv.lineage_used (h : TreeInv s) {l : List Nat} (hi : (s.nodes i).used = true)
    (hl : Lineage s.parentOf i l) : ∀ j ∈ l, (s.nodes j).used = true :=
  hl.forall_mem hi fun _ _ hx hxy => (h.parent _ _ hx hxy).1

/-! ## The ways the table changes -/

/-- The node is the root of a mount. -/
def IsRoot (s : Tmpfs) (j : Nat) : Prop :=
  ∃ m, m < kMaxMounts ∧ (s.mounts m).active = true ∧ (s.mounts m).root = j

/-- What `s'` reads of a table that differs from that of `s` in the slot `i` only. -/
theorem nodes_of_update {i j : Nat} (hn : s'.nodes = update s.nodes i n) (hj : j ≠ i) :
    s'.nodes j = s.nodes j := by
  rw [hn, update_of_ne hj]

theorem parentOf_of_update (hn : s'.nodes = update s.nodes i n) :
    s'.parentOf = update s.parentOf i n.parent := by
  funext j
  by_cases hj : j = i
  · subst hj; simp [parentOf, hn]
  · simp [parentOf, hn, hj]

section
variable (h : TreeInv s)
include h

/-- A slot gets another node, which has to fit into the place it says it has; the roots of the
mounts are the same elsewhere. -/
theorem TreeInv.replace (hn : s'.nodes = update s.nodes i n) (hi : n.used = true → i < kMaxNodes)
    (hroots : ∀ j, j ≠ i → (IsRoot s' j ↔ IsRoot s j))
    (hinj : ∀ m m', m < kMaxMounts → m' < kMaxMounts → (s'.mounts m).active = true →
      (s'.mounts m').active = true → (s'.mounts m).root = (s'.mounts m').root → m = m')
    (hroot : IsRoot s' i → n.used = true ∧ n.isDir = true ∧ n.parent = none)
    (horphan : n.used = true → n.parent = none → IsRoot s' i)
    (hkids : ∀ j, j ≠ i → (s.nodes j).used = true → s.parentOf j = some i → n.used = true ∧
      n.isDir = true)
    (hplace : ∀ p, n.used = true → n.parent = some p → (s'.nodes p).used = true ∧
      (s'.nodes p).isDir = true ∧
      n.name ≠ [] ∧ ∀ j, j ≠ i → (s.nodes j).used = true → s.parentOf j = some p →
        (s.nodes j).name ≠ n.name)
    (hline : ∀ j, (s'.nodes j).used = true → ∃ l, Lineage s'.parentOf j l) (hbuf : BufOk n) :
    TreeInv s' := by
  have hself : s'.nodes i = n := by rw [hn, update_self]
  have hpo : s'.parentOf i = n.parent := by rw [parentOf_of_update hn, update_self]
  have hpkeep : ∀ j, j ≠ i → s'.parentOf j = s.parentOf j := fun j hj => by
    rw [parentOf_of_update hn, update_of_ne hj]
  have hold : ∀ j, j ≠ i → (s'.nodes j).used = true → (s.nodes j).used = true := fun j hj hju => by
    rwa [nodes_of_update hn hj] at hju
  constructor
  · intro j hj
    by_cases hji : j = i
    · subst hji
      exact hi (hself ▸ hj)
    · exact h.bound j (hold j hji hj)
  · intro m hm ha
    by_cases hmi : (s'.mounts m).root = i
    · rw [hmi, hself, hpo]
      exact hroot ⟨m, hm, ha, hmi⟩
    · obtain ⟨m₀, hm₀, ha₀, hr₀⟩ := (hroots _ hmi).1 ⟨m, hm, ha, rfl⟩
      rw [nodes_of_update hn hmi, hpkeep _ hmi, ← hr₀]
      exact h.root m₀ hm₀ ha₀
  · exact hinj
  · intro j hj hp
    by_cases hji : j = i
    · subst hji
      exact horphan (hself ▸ hj) (hpo ▸ hp)
    · exact (hroots j hji).2 (h.orphan j (hold j hji hj) (hpkeep j hji ▸ hp))
  · intro j q hj hq
    by_cases hji : j = i
    · subst hji
      obtain ⟨hqu, hqd, -⟩ := hplace q (hself ▸ hj) (hpo ▸ hq)
      exact ⟨hqu, hqd⟩
    · rw [hpkeep j hji] at hq
      by_cases hqi : q = i
      · subst hqi
        rw [hself]
        exact hkids j hji (hold j hji hj) hq
      · rw [nodes_of_update hn hqi]
        exact h.parent j q (hold j hji hj) hq
  · exact hline
  · intro j k q hj hk hpj hpk hjk
    by_cases hji : j = i <;> by_cases hki : k = i
    · rw [hji, hki]
    · subst hji
      rw [hself, nodes_of_update hn hki] at hjk
      exact absurd hjk.symm
        ((hplace q (hself ▸ hj) (hpo ▸ hpj)).2.2.2 k hki (hold k hki hk) (hpkeep k hki ▸ hpk))
    · subst hki
      rw [hself, nodes_of_update hn hji] at hjk
      exact absurd hjk
        ((hplace q (hself ▸ hk) (hpo ▸ hpk)).2.2.2 j hji (hold j hji hj) (hpkeep j hji ▸ hpj))
    · rw [nodes_of_update hn hji, nodes_of_update hn hki] at hjk
      exact h.siblings j k q (hold j hji hj) (hold k hki hk) (hpkeep j hji ▸ hpj)
        (hpkeep k hki ▸ hpk) hjk
  · intro j q hj hq
    by_cases hji : j = i
    · subst hji
      rw [hself]
      exact (hplace q (hself ▸ hj) (hpo ▸ hq)).2.2.1
    · rw [nodes_of_update hn hji]
      exact h.named j q (hold j hji hj) (hpkeep j hji ▸ hq)
  · intro j
    by_cases hji : j = i
    · subst hji; rwa [hself]
    · rw [nodes_of_update hn hji]; exact h.buf j

/-- Where the walk from the slot ends, every walk does. -/
theorem TreeInv.relink {l : List Nat} (hn : s'.nodes = update s.nodes i n)
    (hl : Lineage s'.parentOf i l) (j : Nat)
    (hj : (s'.nodes j).used = true) : ∃ l, Lineage s'.parentOf j l := by
  by_cases hji : j = i
  · subst hji; exact ⟨l, hl⟩
  · rw [nodes_of_update hn hji] at hj
    obtain ⟨l', hl'⟩ := h.lineage j hj
    rw [parentOf_of_update hn] at hl ⊢
    exact hl.relink hl'

/-- A slot that keeps its place in the tree may change its contents and attributes. -/
theorem TreeInv.setContents (hused : n.used = (s.nodes i).used)
    (hdir : n.isDir = (s.nodes i).isDir) (hname : n.name = (s.nodes i).name)
    (hpar : n.parent = (s.nodes i).parent) (hbuf : BufOk n) : TreeInv (s.setNode i n) := by
  have hread : ∀ j, ((s.setNode i n).nodes j).used = (s.nodes j).used ∧
      ((s.setNode i n).nodes j).isDir = (s.nodes j).isDir := by
    intro j
    by_cases hj : j = i
    · subst hj
      simp [setNode, hused, hdir]
    · simp [setNode, hj]
  have hfun : (s.setNode i n).parentOf = s.parentOf := by
    rw [parentOf_of_update rfl, hpar]
    exact update_eq_self i _
  refine h.replace rfl (hused ▸ h.bound i) (fun _ _ => Iff.rfl) h.rootInj ?_
    (hused ▸ hpar ▸ h.orphan i) ?_ ?_ ?_ hbuf
  · rintro ⟨m, hm, ha, hr⟩
    rw [hused, hdir, hpar, ← hr]
    exact h.root m hm ha
  · intro j _ hj hp
    rw [hused, hdir]
    exact h.parent j i hj hp
  · intro p hu hp
    rw [hused] at hu
    rw [hpar] at hp
    obtain ⟨hpu, hpd⟩ := h.parent i p hu hp
    rw [(hread p).1, (hread p).2, hname]
    exact ⟨hpu, hpd, h.named i p hu hp,
      fun j hji hj hjp heq => hji (h.siblings j i p hj hu hjp hp heq)⟩
  · intro j hj
    rw [hfun]
    exact h.lineage j ((hread j).1 ▸ hj)

/-- A slot that is no mount's root comes to hang below a directory, provided it is not an ancestor
of that directory and no other child has its name. -/
theorem TreeInv.hang {i p : Nat} {lp : List Nat} (hi : i < kMaxNodes)
    (hroot : ∀ m, m < kMaxMounts → (s.mounts m).active = true → (s.mounts m).root ≠ i)
    (hkids : ∀ j, (s.nodes j).used = true → s.parentOf j = some i → n.used = true ∧ n.isDir = true)
    (hpar : n.parent = some p) (hpu : (s.nodes p).used = true) (hpd : (s.nodes p).isDir = true)
    (hname : n.name ≠ [])
    (hfresh : ∀ j, j ≠ i → (s.nodes j).used = true → s.parentOf j = some p →
      (s.nodes j).name ≠ n.name)
    (hlp : Lineage s.parentOf p lp) (hnot : i ∉ lp) (hbuf : BufOk n)
    (hn : s'.nodes = update s.nodes i n)
    (hm : s'.mounts = s.mounts) : TreeInv s' := by
  have hpi : p ≠ i := by
    rintro rfl
    exact hnot hlp.self_mem
  have hfun : s'.parentOf = update s.parentOf i (some p) := hpar ▸ parentOf_of_update hn
  have hl : Lineage s'.parentOf i (i :: lp) := by
    refine Lineage.step (by rw [hfun, update_self]) (hlp.congr fun b hb => ?_)
    rw [hfun, update_of_ne]
    rintro rfl
    exact hnot hb
  refine h.replace hn (fun _ => hi) (fun j _ => by rw [IsRoot, IsRoot, hm])
    (by rw [hm]; exact h.rootInj) ?_ ?_ (fun j _ => hkids j) ?_ (h.relink hn hl) hbuf
  · rintro ⟨m, hmm, ha, hr⟩
    rw [hm] at ha hr
    exact absurd hr (hroot m hmm ha)
  · intro _ hnone
    rw [hpar] at hnone
    cases hnone
  · intro q _ hq
    rw [hpar, Option.some_inj] at hq
    subst hq
    rw [nodes_of_update hn hpi]
    exact ⟨hpu, hpd, hname, hfresh⟩

/-- An unused slot becomes a child of a directory. -/
theorem TreeInv.insert {i p : Nat} (hi : i < kMaxNodes) (hfree : (s.nodes i).used = false)
    (hpar : n.parent = some p) (hpu : (s.nodes p).used = true) (hpd : (s.nodes p).isDir = true)
    (hname : n.name ≠ [])
    (hfresh : ∀ j, (s.nodes j).used = true → s.parentOf j = some p → (s.nodes j).name ≠ n.name)
    (hbuf : BufOk n) (hn : s'.nodes = update s.nodes i n) (hm : s'.mounts = s.mounts) :
    TreeInv s' := by
  have hold : ∀ j, (s.nodes j).used = true → j ≠ i := by
    rintro j hj rfl
    rw [hfree] at hj
    cases hj
  obtain ⟨lp, hlp⟩ := h.lineage p hpu
  exact h.hang hi (fun m hmm ha => hold _ (h.root m hmm ha).1)
    (fun j hj hp => absurd rfl (hold i (h.parent j i hj hp).1)) hpar hpu hpd hname
    (fun j _ => hfresh j) hlp
    (fun hmem => hold i (h.lineage_used hpu hlp i hmem) rfl) hbuf hn hm

/-- A node that is nobody's parent and no mount's root may disappear. -/
theorem TreeInv.remove (hleaf : ∀ j, (s.nodes j).used = true → s.parentOf j ≠ some i)
    (hroot : ∀ m, m < kMaxMounts → (s.mounts m).active = true → (s.mounts m).root ≠ i) :
    TreeInv (freeNode s i) := by
  have hn : (freeNode s i).nodes = update s.nodes i {} := rfl
  refine h.replace hn nofun (fun _ _ => Iff.rfl) h.rootInj ?_ nofun
    (fun j _ hj hp => absurd hp (hleaf j hj)) nofun (h.relink hn (Lineage.root ?_)) bufOk_default
  · rintro ⟨m, hm, ha, hr⟩
    exact absurd hr (hroot m hm ha)
  · rw [parentOf_of_update hn, update_self]

/-- A node that is no mount's root may get a new parent and a new name, provided it is not an
ancestor of the new parent and no other child has that name. -/
theorem TreeInv.move {i p : Nat} {lp : List Nat} (hi : (s.nodes i).used = true)
    (hroot : ∀ m, m < kMaxMounts → (s.mounts m).active = true → (s.mounts m).root ≠ i)
    (hpu : (s.nodes p).used = true) (hpd : (s.nodes p).isDir = true) (hname : name ≠ [])
    (hfresh : ∀ j, j ≠ i → (s.nodes j).used = true → s.parentOf j = some p →
      (s.nodes j).name ≠ name)
    (hlp : Lineage s.parentOf p lp) (hnot : i ∉ lp) :
    TreeInv (s.setNode i { s.nodes i with name := name, parent := some p }) :=
  h.hang (n := { s.nodes i with name := name, parent := some p }) (h.bound i hi) hroot
    (fun j hj hp => h.parent j i hj hp) rfl hpu hpd hname hfresh hlp hnot
    ⟨(h.buf i).le, (h.buf i).len⟩ rfl rfl

/-- An unused slot becomes the root of a new mount. -/
theorem TreeInv.newRoot {i slot : Nat} {m : TmMount} (hi : i < kMaxNodes)
    (hfree : (s.nodes i).used = false) (hslot : slot < kMaxMounts)
    (hidle : (s.mounts slot).active = false)
    (hmnt : m.active = true ∧ m.root = i) (hu : n.used = true) (hd : n.isDir = true)
    (hp : n.parent = none)
    (hbuf : BufOk n) (hn : s'.nodes = update s.nodes i n)
    (hm : s'.mounts = update s.mounts slot m) :
    TreeInv s' := by
  have hslotm : s'.mounts slot = m := by rw [hm, update_self]
  have hmkeep : ∀ m, m ≠ slot → s'.mounts m = s.mounts m := fun m hms => by
    rw [hm, update_of_ne hms]
  have hother : ∀ m, (s.mounts m).active = true → m ≠ slot := by
    rintro m ha rfl
    rw [hidle] at ha
    cases ha
  -- the old roots are used, the new one was not
  have hnew : ∀ m, m < kMaxMounts → (s.mounts m).active = true → (s.mounts m).root ≠ i := by
    rintro m hmm ha rfl
    rw [(h.root m hmm ha).1] at hfree
    cases hfree
  have hwhich : ∀ m, m < kMaxMounts → (s'.mounts m).active = true →
    (s'.mounts m).root = i → m = slot := by
    intro m hmm ha hr
    by_contra hms
    rw [hmkeep m hms] at ha hr
    exact hnew m hmm ha hr
  refine h.replace hn (fun _ => hi) ?_ ?_ (fun _ => ⟨hu, hd, hp⟩)
    (fun _ _ => ⟨slot, hslot, by rw [hslotm]; exact hmnt.1, by rw [hslotm]; exact hmnt.2⟩) ?_ ?_
    (h.relink hn (Lineage.root ?_)) hbuf
  · intro j hji
    constructor
    · rintro ⟨m, hmm, ha, rfl⟩
      have hms : m ≠ slot := by
        rintro rfl
        rw [hslotm] at hji
        exact hji hmnt.2
      exact ⟨m, hmm, hmkeep m hms ▸ ha, by rw [hmkeep m hms]⟩
    · rintro ⟨m, hmm, ha, rfl⟩
      exact ⟨m, hmm, by rwa [hmkeep m (hother m ha)], by rw [hmkeep m (hother m ha)]⟩
  · intro m m' hmm hmm' ha ha' heq
    by_cases hms : m = slot
    · rw [hms, hslotm, hmnt.2] at heq
      exact hms.trans (hwhich m' hmm' ha' heq.symm).symm
    · have hms' : m' ≠ slot := by
        rintro rfl
        rw [hslotm, hmnt.2] at heq
        exact hms (hwhich m hmm ha heq)
      rw [hmkeep m hms] at ha heq
      rw [hmkeep m' hms'] at ha' heq
      exact h.rootInj m m' hmm hmm' ha ha' heq
  · intro j _ hj hjp
    rw [(h.parent j i hj hjp).1] at hfree
    cases hfree
  · intro p _ hjp
    rw [hp] at hjp
    cases hjp
  · rw [parentOf_of_update hn, update_self, hp]

end

/-! ## Path resolution -/

theorem components_ne_nil (p : CString) : ∀ c ∈ components p, c ≠ [] := by
  have aux : ∀ (p acc : CString), ∀ c ∈ componentsAux p acc, c ≠ [] := by
    intro p
    induction p with
    | nil =>
      intro acc c hc
      rw [componentsAux] at hc
      split at hc
      · simp at hc
      · rename_i hacc
        rw [mem_singleton] at hc
        simpa [hc] using hacc
    | cons x xs ih =>
      intro acc c hc
      rw [componentsAux] at hc
      split at hc
      · split at hc
        · exact ih _ c hc
        · rename_i hacc
          rcases mem_cons.1 hc with rfl | hc
          · simpa using hacc
          · exact ih _ c hc
      · exact ih _ c hc
  exact aux p []

theorem findMountFrom_some (path : CString) : ∀ (n i : Nat) (best : Option Nat) (len m : Nat),
    i + n = kMaxMounts →
    (∀ b, best = some b → b < kMaxMounts ∧ (s.mounts b).active = true) →
    findMountFrom s path n i best len = some m → m < kMaxMounts ∧ (s.mounts m).active = true
  | 0, _, best, _, m, _, hb, h => hb m h
  | n + 1, i, best, len, m, hin, hb, h => by
    rw [findMountFrom] at h
    split at h
    · rename_i hc
      simp only [Bool.and_eq_true] at hc
      refine findMountFrom_some path n (i + 1) _ _ m (by omega) ?_ h
      intro b hbi
      cases hbi
      exact ⟨by omega, hc.1.1⟩
    · exact findMountFrom_some path n (i + 1) _ _ m (by omega) hb h

variable {path : CString}

theorem findMount_some {m : Nat} (h : findMount s path = some m) :
    m < kMaxMounts ∧ (s.mounts m).active = true :=
  findMountFrom_some path kMaxMounts 0 none 0 m (Nat.zero_add _) (by simp) h

theorem lookupChild_some {dir i : Nat} (h : lookupChild s dir name = some i) :
    (s.nodes i).used = true ∧ s.parentOf i = some dir ∧ (s.nodes i).name = name := by
  have h1 := find?_some h
  simp only [Bool.and_eq_true, beq_iff_eq] at h1
  exact ⟨h1.1.1, h1.1.2, h1.2⟩

theorem lookupChild_eq_none (hs : TreeInv s) {dir : Nat} (h : lookupChild s dir name = none)
    (j : Nat)
    (hj : (s.nodes j).used = true) (hp : s.parentOf j = some dir) : (s.nodes j).name ≠ name := by
  rintro rfl
  rw [lookupChild, find?_eq_none] at h
  exact h j (mem_range.2 (hs.bound j hj)) (by simp [hj, show (s.nodes j).parent = _ from hp])

theorem walk_used {cs : List CString} : ∀ {cur n : Nat}, (s.nodes cur).used = true →
    walk s cur cs = some n → (s.nodes n).used = true := by
  induction cs with
  | nil =>
    intro cur n hc h
    rw [walk, Option.some_inj] at h
    exact h ▸ hc
  | cons c cs ih =>
    intro cur n hc h
    rw [walk] at h
    split at h
    · cases h
    · split at h
      · cases h
      · rename_i k hk
        exact ih (lookupChild_some hk).1 h

/-- The last step of a walk. -/
theorem walk_concat (cs : List CString) (leaf : CString) : ∀ cur : Nat,
    walk s cur (cs ++ [leaf]) = (walk s cur cs).bind fun p =>
      if (s.nodes p).isDir then lookupChild s p leaf else none := by
  induction cs with
  | nil =>
    intro cur
    simp only [nil_append, walk, Option.bind_some]
    cases (s.nodes cur).isDir <;> simp
    cases lookupChild s cur leaf <;> rfl
  | cons c cs ih =>
    intro cur
    simp only [cons_append, walk]
    cases (s.nodes cur).isDir <;> simp
    cases lookupChild s cur c with
    | none => rfl
    | some k => exact ih k

theorem resolve_used (hs : TreeInv s) {n : Nat} (h : resolve s path = some n) :
    (s.nodes n).used = true := by
  rw [resolve] at h
  split at h
  · cases h
  · rename_i m hm
    obtain ⟨hlt, ha⟩ := findMount_some hm
    exact walk_used (hs.root m hlt ha).1 h

/-- `resolve_parent` finds a used node and a name that fits; and if the path itself does not
resolve, a directory found this way has no child of that name. -/
theorem resolveParent_spec (hs : TreeInv s) {leaf : CString} {p : Nat}
    (h : resolveParent s path kNameCap = some (p, leaf)) :
    (s.nodes p).used = true ∧ leaf ≠ [] ∧ leaf.length < kNameCap ∧
      (resolve s path = none → (s.nodes p).isDir = true → lookupChild s p leaf = none) := by
  rw [resolveParent] at h
  split at h
  · cases h
  rename_i m hm
  obtain ⟨hlt, ha⟩ := findMount_some hm
  simp only at h
  generalize hcs : components (path.drop (s.mounts m).point.length) = cs at h
  split at h
  · cases h
  rename_i x hx
  split at h
  · cases h
  rw [Option.map_eq_some_iff] at h
  obtain ⟨q, hq, hqp⟩ := h
  cases hqp
  have hmem : leaf ∈ cs := mem_of_getLast? hx
  refine ⟨walk_used (hs.root m hlt ha).1 hq, components_ne_nil _ leaf (hcs ▸ hmem), by omega,
    fun hres hdir => ?_⟩
  rw [resolve, hm] at hres
  simp only [hcs] at hres
  rwa [show cs = cs.dropLast ++ [leaf] from (dropLast_append_getLast? leaf hx).symm,
    walk_concat, hq, Option.bind_some, if_pos hdir] at hres

theorem allocNode_some {now i : Nat} (h : allocNode s now = some (i, s₁)) :
    i < kMaxNodes ∧ (s.nodes i).used = false ∧
      s₁ = { s.setNode i { used := true, ino := s.inoNext, mtime := now } with
        inoNext := (s.inoNext + 1) % 2 ^ 32 } := by
  rw [allocNode] at h
  split at h
  · cases h
  · rename_i k hk
    cases h
    have h1 := find?_some hk
    have h2 := mem_of_find?_eq_some hk
    exact ⟨mem_range.1 h2, by simpa using h1, rfl⟩

/-! ## Buffers -/

variable {need : Nat}

/-- `need` turns are enough for the loop, whatever capacity it starts from. -/
theorem growCap_stable (extra : Nat) : ∀ (fuel nc : Nat), 0 < nc → need ≤ nc + fuel →
    growCap need (fuel + extra) nc = growCap need fuel nc
  | 0, nc, _, h => by
    cases extra with
    | zero => rfl
    | succ extra => exact if_neg (by omega)
  | fuel + 1, nc, hpos, h => by
    rw [Nat.add_right_comm, growCap, growCap,
      growCap_stable extra fuel (nc * 2) (by omega) (by omega)]

/-- The capacity stays a 32-bit number. -/
theorem growCap_lt (hneed : need < 2 ^ 32) : ∀ (fuel nc : Nat), nc < 2 ^ 32 →
    growCap need fuel nc < 2 ^ 32
  | 0, _, h => h
  | fuel + 1, nc, h => by
    rw [growCap]
    split
    · split
      · exact hneed
      · exact growCap_lt hneed fuel (nc * 2) (by omega)
    · exact h

theorem growCap_ge (need : Nat) : ∀ (fuel nc : Nat), 0 < nc → need ≤ nc + fuel →
    need ≤ growCap need fuel nc
  | 0, nc, _, h => h
  | fuel + 1, nc, hpos, h => by
    rw [growCap]
    split
    · split
      · exact Nat.le_refl _
      · exact growCap_ge need fuel (nc * 2) (by omega) (by omega)
    · omega

/-- What a successful `ensure_cap` changes is the buffer, and what it keeps of that is the
file. -/
structure Grown (n n' : TmNode) (need : Nat) : Prop where
  used : n'.used = n.used
  isDir : n'.isDir = n.isDir
  isSymlink : n'.isSymlink = n.isSymlink
  name : n'.name = n.name
  parent : n'.parent = n.parent
  size : n'.size = n.size
  buf : BufOk n'
  enough : need ≤ n'.cap
  file : (n'.data.getD []).take n.size = (n.data.getD []).take n.size

theorem ensureCap_some {n n' : TmNode} {grant : Bool} (hb : BufOk n)
    (h : ensureCap n need grant = some n') : Grown n n' need := by
  rw [ensureCap] at h
  split at h
  · rename_i hle
    cases h
    exact ⟨rfl, rfl, rfl, rfl, rfl, rfl, hb, hle, rfl⟩
  · simp only at h
    split at h
    · cases h
    · cases h
      have hpos : 0 < if n.cap = 0 then 64 else n.cap := by split <;> omega
      have h1 := growCap_ge need need _ hpos (by omega)
      generalize growCap need need _ = nc at h1
      have hsize := hb.le
      have hcap : n.size ≤ nc := by omega
      have hlen : ((n.data.getD []).take n.size).length = n.size := by
        rw [length_take, hb.len]
        omega
      refine ⟨rfl, rfl, rfl, rfl, rfl, rfl, ⟨hcap, ?_⟩, h1, ?_⟩
      · simp only [Option.getD_some, length_append, length_replicate]
        omega
      · simp only [Option.getD_some]
        rw [take_append_of_le_length (by omega), take_take, Nat.min_self]

variable {data bytes : List UInt8} {f : TmNode → TmNode}

theorem storeBytes_eq (h : pos + bytes.length ≤ data.length) :
    storeBytes data pos bytes = some
      (data.take pos ++ bytes ++ data.drop (pos + bytes.length)) := by
  rw [storeBytes]
  split
  · rename_i hnil
    simp [hnil]
  · rfl

theorem zeroBytes_eq {lo hi : Nat} (hhi : hi ≤ data.length) (hlo : lo ≤ hi) :
    zeroBytes data lo hi =
      some (data.take lo ++ replicate (hi - lo) 0 ++ data.drop hi) := by
  rw [zeroBytes]
  split
  · have : lo = hi := by omega
    subst this
    simp
  · rfl

theorem length_splice (h : pos + bytes.length ≤ data.length) :
    (data.take pos ++ bytes ++ data.drop (pos + bytes.length)).length = data.length := by
  simp only [length_append, length_take, length_drop]
  omega

/-! ## The operations keep the invariant -/

theorem sCopy_eq {leaf : CString} {cap : Nat} (h : leaf.length < cap) : sCopy leaf cap = leaf := by
  rw [sCopy, take_of_length_le (by omega)]

/-- Writing to the buffer of a node, as `ensure_cap` left it, and changing its size. -/
theorem TreeInv.setFile (h : TreeInv s) {i size now : Nat} {node : TmNode}
    (hg : Grown (s.nodes i) node need) (hlen : data.length = node.cap)
    (hsize : size ≤ node.cap) :
    TreeInv (s.setNode i { node with data := some data, size := size, mtime := now }) :=
  h.setContents hg.used hg.isDir hg.name hg.parent ⟨hsize, hlen⟩

theorem addNode_some (h : TreeInv s) {env : Env}
    (hres : resolve s path = none) (ha : addNode s env path f = some (i, s₁))
    (hbuf : ∀ n, BufOk n → BufOk (f n)) :
    TreeInv s₁ ∧
      (s₁.nodes i).isDir = (f { used := true, ino := s.inoNext, mtime := env.now }).isDir := by
  rw [addNode] at ha
  split at ha
  · cases ha
  rename_i p leaf hp
  obtain ⟨hpu, hleaf, hlen, hfresh⟩ := resolveParent_spec h hp
  split at ha
  · cases ha
  rename_i hpd
  have hpd : (s.nodes p).isDir = true := by simpa using hpd
  split at ha
  · cases ha
  rename_i i s₁ halloc
  obtain ⟨hi, hfree, rfl⟩ := allocNode_some halloc
  cases ha
  have hok := hbuf { used := true, ino := s.inoNext, mtime := env.now } ⟨Nat.le_refl _, rfl⟩
  rw [adopt, sCopy_eq hlen]
  simp only [setNode, update_self, update_idem]
  refine ⟨h.insert hi hfree rfl hpu hpd hleaf (lookupChild_eq_none h (hfresh hres hpd)) ?_ rfl rfl,
    trivial⟩
  exact ⟨hok.le, hok.len⟩

/-- A node that is not a directory has no children and is no mount's root. -/
theorem TreeInv.remove_file (h : TreeInv s) (hd : (s.nodes i).isDir = false) :
    TreeInv (freeNode s i) := by
  refine h.remove (fun j hj hp => ?_) fun m hm ha hr => ?_
  · rw [(h.parent j i hj hp).2] at hd
    cases hd
  · rw [← hr, (h.root m hm ha).2.1] at hd
    cases hd

theorem isMountRoot_eq_false (hr : isMountRoot s i = false) (m : Nat) (hm : m < kMaxMounts)
    (ha : (s.mounts m).active = true) : (s.mounts m).root ≠ i := by
  rw [isMountRoot, any_eq_false] at hr
  have := hr m (mem_range.2 hm)
  simpa [ha] using this

section
variable (h : TreeInv s)
include h

section
variable (env : Env) (path : CString)

theorem testamentMount_treeInv (point : CString) : TreeInv (testamentMount s env point).2 := by
  rw [testamentMount]
  split
  · exact h
  split
  · exact h
  split
  · exact h
  rename_i slot hslot
  split
  · exact h
  rename_i root s₁ halloc
  obtain ⟨hi, hfree, rfl⟩ := allocNode_some halloc
  have hidle := find?_some hslot
  simp only [setNode, update_self, update_idem]
  exact h.newRoot hi hfree (mem_range.1 (mem_of_find?_eq_some hslot)) (by simpa using hidle)
    ⟨rfl, rfl⟩ rfl rfl rfl ⟨Nat.le_refl _, rfl⟩ rfl rfl

theorem tmpfsCreate_treeInv : TreeInv (tmpfsCreate s env path).2 := by
  rw [tmpfsCreate]
  split
  · exact h
  rename_i hres
  split
  · exact h
  rename_i i s₁ ha
  exact (addNode_some h (by simpa using hres) ha fun n hb => ⟨hb.le, hb.len⟩).1

theorem tmpfsMkdir_treeInv : TreeInv (tmpfsMkdir s env path).2 := by
  rw [tmpfsMkdir]
  split
  · exact h
  rename_i hres
  split
  · exact h
  rename_i i s₁ ha
  exact (addNode_some h (by simpa using hres) ha fun n hb => ⟨hb.le, hb.len⟩).1

theorem tmpfsUnlink_treeInv : TreeInv (tmpfsUnlink s path).2 := by
  rw [tmpfsUnlink]
  split
  · exact h
  split
  · exact h
  rename_i hd
  exact h.remove_file (by simpa using hd)

theorem tmpfsRmdir_treeInv : TreeInv (tmpfsRmdir s path).2 := by
  rw [tmpfsRmdir]
  split
  · exact h
  split
  · exact h
  split
  · exact h
  rename_i hchild
  split
  · exact h
  rename_i hroot
  refine h.remove (fun j hj hp => ?_) (isMountRoot_eq_false (by simpa using hroot))
  rw [Bool.not_eq_true, any_eq_false] at hchild
  exact hchild j (mem_range.2 (h.bound j hj)) (by simp [hj, show (s.nodes j).parent = _ from hp])

theorem setAttr_treeInv
    (hf : ∀ n, (f n).used = n.used ∧ (f n).isDir = n.isDir ∧ (f n).name = n.name ∧
      (f n).parent = n.parent ∧ (BufOk n → BufOk (f n))) :
    TreeInv (setAttr s path f).2 := by
  rw [setAttr]
  split
  · exact h
  · rename_i n hn
    obtain ⟨h1, h2, h3, h4, h5⟩ := hf (s.nodes n)
    exact h.setContents h1 h2 h3 h4 (h5 (h.buf n))

theorem tmpfsTruncate_treeInv (newSize : Nat) :
    TreeInv (tmpfsTruncate s env path newSize).2 := by
  rw [tmpfsTruncate]
  split
  · exact h
  rename_i n hn
  split
  · exact h
  split
  · exact h
  simp only
  split
  · exact h
  rename_i node hnode
  split at hnode
  · have hg := ensureCap_some (h.buf n) hnode
    exact h.setContents hg.used hg.isDir hg.name hg.parent ⟨hg.enough, hg.buf.len⟩
  · cases hnode
    have hb := h.buf n
    have hfit : newSize ≤ (s.nodes n).cap := by
      have := hb.le
      omega
    exact h.setContents rfl rfl rfl rfl ⟨hfit, hb.len⟩

end

theorem tmpfsRename_treeInv (oldPath newPath : CString) :
    TreeInv (tmpfsRename s oldPath newPath).2 := by
  rw [tmpfsRename]
  split
  · exact h
  rename_i src hsrc
  have hsu := resolve_used h hsrc
  split
  · exact h
  rename_i hnroot
  have hroot := isMountRoot_eq_false (by simpa using hnroot : isMountRoot s src = false)
  split
  · exact h
  rename_i p leaf hp
  obtain ⟨hpu, hleaf, hlen, -⟩ := resolveParent_spec h hp
  split
  · exact h
  rename_i hpd
  have hpd : (s.nodes p).isDir = true := by simpa using hpd
  split
  · exact h
  rename_i hcycle
  -- whether `src` is a directory or not, it is not an ancestor of the new parent
  obtain ⟨lp, hlp⟩ := h.lineage p hpu
  have hlu := h.lineage_used hpu hlp
  -- every member of the lineage of a directory is a directory
  have hdirs := hlp.forall_mem
    ⟨hpu, hpd⟩
    fun x y hx hxy => h.parent x y hx.1 hxy
  have hnot : src ∉ lp := by
    intro hmem
    by_cases hsd : (s.nodes src).isDir = true
    · have hlen := hlp.length_le fun j hj => h.bound j (hlu j hj)
      rw [hsd, Bool.true_and, Bool.not_eq_true] at hcycle
      have := (meets_iff hlp (Nat.le_succ_of_le hlen)).2 hmem
      rw [hcycle] at this
      cases this
    · exact hsd (hdirs src hmem).2
  simp only
  split
  · rename_i hlook
    rw [adopt, sCopy_eq hlen]
    exact h.move hsu hroot hpu hpd hleaf
      (fun j _ hj hjp => lookupChild_eq_none h hlook j hj hjp) hlp hnot
  rename_i existing hlook
  obtain ⟨heu, hep, hename⟩ := lookupChild_some hlook
  split
  · exact h
  rename_i hes
  split
  · exact h
  rename_i hed
  have hed : (s.nodes existing).isDir = false := by simpa using hed
  have h' := h.remove_file hed
  -- the replaced file is neither the new parent nor the node that is moved
  have hkeep : ∀ j, j ≠ existing → (freeNode s existing).nodes j = s.nodes j := fun j hj =>
    update_of_ne hj _ _
  have hpe : p ≠ existing := by
    rintro rfl
    rw [hpd] at hed
    cases hed
  have hse : src ≠ existing := fun he => hes he.symm
  have hgone : ((freeNode s existing).nodes existing).used = false := by
    simp [freeNode, setNode]
  have hlp' : Lineage (freeNode s existing).parentOf p lp := by
    refine hlp.congr fun b hb => ?_
    have hbe : b ≠ existing := by
      rintro rfl
      rw [(hdirs b hb).2] at hed
      cases hed
    rw [parentOf, hkeep b hbe, parentOf]
  rw [adopt, sCopy_eq hlen]
  refine h'.move (by rwa [hkeep src hse]) hroot (by rwa [hkeep p hpe]) (by rwa [hkeep p hpe]) hleaf
    (fun j hj hju hjp hjn => ?_) hlp' hnot
  have hje : j ≠ existing := by
    rintro rfl
    rw [hgone] at hju
    cases hju
  rw [parentOf, hkeep j hje] at hjp
  rw [hkeep j hje] at hju hjn
  exact hje (h.siblings j existing p hju heu hjp hep (hjn.trans hename.symm))

theorem tmpfsSymlink_treeInv (env : Env) (target path : CString) :
    ∃ r, tmpfsSymlink s env target path = some r ∧ TreeInv r.2 := by
  rw [tmpfsSymlink]
  split
  · exact ⟨_, rfl, h⟩
  rename_i hres
  split
  · exact ⟨_, rfl, h⟩
  rename_i i s₁ ha
  obtain ⟨h₁, hnode⟩ := addNode_some h (by simpa using hres) ha fun n hb => ⟨hb.le, hb.len⟩
  split
  · exact ⟨_, rfl, h₁.remove_file hnode⟩
  rename_i node hgrow
  have hg := ensureCap_some (h₁.buf i) hgrow
  have hcap := hg.enough
  have hfit : 0 + (target ++ [0]).length ≤ (node.data.getD []).length := by
    rw [hg.buf.len, length_append, length_singleton]
    omega
  rw [storeBytes_eq hfit]
  refine ⟨_, rfl, h₁.setContents hg.used hg.isDir hg.name hg.parent ⟨?_, ?_⟩⟩
  · exact Nat.le_trans (Nat.le_succ _) hcap
  · exact (length_splice hfit).trans hg.buf.len

theorem writeTarget_some {env : Env} {n : Nat} (hw : writeTarget s env path = some (n, s₁)) :
    TreeInv s₁ := by
  rw [writeTarget] at hw
  split at hw
  · cases hw; exact h
  rename_i hres
  split at hw
  · cases hw
  rename_i p leaf hp
  obtain ⟨hpu, hleaf, hlen, hfresh⟩ := resolveParent_spec h hp
  split at hw
  · cases hw
  rename_i hpd
  have hpd : (s.nodes p).isDir = true := by simpa using hpd
  split at hw
  · cases hw
  split at hw
  · cases hw
  rename_i i s₂ halloc
  obtain ⟨hi, hfree, rfl⟩ := allocNode_some halloc
  cases hw
  rw [adopt, sCopy_eq hlen]
  simp only [setNode, update_self, update_idem]
  exact h.insert hi hfree rfl hpu hpd hleaf (lookupChild_eq_none h (hfresh hres hpd))
    ⟨Nat.le_refl _, rfl⟩ rfl rfl

theorem tmpfsWriteFile_treeInv (env : Env) (path : CString) (buf : List UInt8) :
    ∃ r, tmpfsWriteFile s env path buf = some r ∧ TreeInv r.2 := by
  rw [tmpfsWriteFile]
  split
  · exact ⟨_, rfl, h⟩
  rename_i n s₁ hw
  have h₁ := writeTarget_some h hw
  split
  · exact ⟨_, rfl, h₁⟩
  split
  · exact ⟨_, rfl, h₁⟩
  rename_i node hgrow
  have hg := ensureCap_some (h₁.buf n) hgrow
  have hcap : buf.length ≤ node.cap := by
    have := hg.enough
    split at this <;> omega
  have hfit : 0 + buf.length ≤ (node.data.getD []).length := by
    rw [hg.buf.len]
    omega
  rw [storeBytes_eq hfit]
  exact ⟨_, rfl, h₁.setFile hg ((length_splice hfit).trans hg.buf.len) hcap⟩

end

theorem storeBytes_length {d : List UInt8} (h : storeBytes data pos bytes = some d) :
    d.length = data.length := by
  rw [storeBytes] at h
  split at h
  · cases h; rfl
  · split at h
    · rename_i hfit
      cases h
      exact length_splice hfit
    · cases h

theorem zeroBytes_length {d : List UInt8} {lo hi : Nat} (h : zeroBytes data lo hi = some d) :
    d.length = data.length := by
  rw [zeroBytes] at h
  split at h
  · cases h; rfl
  · split at h
    · cases h
      simp only [length_append, length_take, length_replicate, length_drop]
      omega
    · cases h

/-- `tmpfs_append_file` gets to its loops: `path` names the file `i`, the end of the write, as it is
computed, is small enough and the buffer has or gets that many bytes. -/
structure Reaches (s : Tmpfs) (env : Env) (path : CString) (len off i : Nat) : Prop where
  res : resolve s path = some i
  isDir : (s.nodes i).isDir = false
  small : (off + len) % 2 ^ 64 ≤ 0xFFFFFFFF
  room : max 1 ((off + len) % 2 ^ 64) ≤ (s.nodes i).cap ∨ env.grant = true

section Append

variable {env : Env} {path : CString} {buf : List UInt8} {off : Nat}

theorem tmpfsAppendFile_early (h : ∀ i, ¬Reaches s env path buf.length off i) :
    appendStores s env path buf off = ([], 0) ∧
      ∃ e : Int, e < 0 ∧ tmpfsAppendFile s env path buf off = some (e, s) := by
  rw [appendStores, tmpfsAppendFile]
  cases hres : resolve s path with
  | none => exact ⟨rfl, -1, by decide, rfl⟩
  | some i =>
    dsimp only
    split
    · exact ⟨rfl, -1, by decide, rfl⟩
    rename_i hdir
    split
    · exact ⟨rfl, -1, by decide, rfl⟩
    rw [ensureCap, if_neg, if_pos]
    · exact ⟨rfl, -28, by decide, rfl⟩
    · simpa using fun hg => h i ⟨hres, by simpa using hdir, by omega, .inr hg⟩
    · exact fun hr => h i ⟨hres, by simpa using hdir, by omega, .inl (by split at hr <;> omega)⟩

/-- From the loops on, everything rests on the buffer `ensure_cap` has left. -/
theorem Reaches.append (h : Reaches s env path buf.length off i) :
    ∃ node, ensureCap (s.nodes i) (max 1 ((off + buf.length) % 2 ^ 64)) env.grant = some node ∧
      appendStores s env path buf off = ((range (off % 2 ^ 32)).drop node.size ++
        (range buf.length).map fun k => (off % 2 ^ 32 + k) % 2 ^ 32, node.cap) ∧
      tmpfsAppendFile s env path buf off =
        (zeroBytes (node.data.getD []) node.size (off % 2 ^ 32)).bind fun d =>
          (storeBytes d (off % 2 ^ 32) buf).map fun d' =>
          ((buf.length : Int), s.setNode i { node with
            data := some d'
            size := max ((off + buf.length) % 2 ^ 64) node.size
            mtime := env.now }) := by
  have hmax : ∀ m, (if (off + buf.length) % 2 ^ 64 > m then (off + buf.length) % 2 ^ 64 else m) =
      max ((off + buf.length) % 2 ^ 64) m := fun m => by split <;> omega
  rw [appendStores, tmpfsAppendFile, h.res]
  simp only [h.isDir, Nat.not_lt.2 h.small, hmax,
    show (if (off + buf.length) % 2 ^ 64 = 0 then 1 else (off + buf.length) % 2 ^ 64) =
      max 1 ((off + buf.length) % 2 ^ 64) by split <;> omega]
  cases hgrow : ensureCap (s.nodes i) (max 1 ((off + buf.length) % 2 ^ 64)) env.grant with
  | none =>
    rw [ensureCap] at hgrow
    have := h.room
    grind
  | some node => exact ⟨node, rfl, rfl, rfl⟩

theorem tmpfsAppendFile_treeInv (h : TreeInv s) {r : Int × Tmpfs}
    (hr : tmpfsAppendFile s env path buf off = some r) : TreeInv r.2 := by
  by_cases hre : ∃ i, Reaches s env path buf.length off i
  · obtain ⟨i, hre⟩ := hre
    obtain ⟨node, hgrow, -, hap⟩ := hre.append
    have hg := ensureCap_some (h.buf i) hgrow
    rw [hap, Option.bind_eq_some_iff] at hr
    obtain ⟨d₁, hd₁, hr⟩ := hr
    rw [Option.map_eq_some_iff] at hr
    obtain ⟨d₂, hd₂, rfl⟩ := hr
    refine h.setFile hg ?_ (Nat.max_le.2 ⟨?_, hg.buf.le⟩)
    · rw [storeBytes_length hd₂, zeroBytes_length hd₁, hg.buf.len]
    · exact Nat.le_trans (Nat.le_max_right ..) hg.enough
  · obtain ⟨-, e, -, he⟩ := tmpfsAppendFile_early (not_exists.1 hre)
    cases he.symm.trans hr
    exact h

/-- As long as `off + len` does not wrap around, the loops store all the bytes inside the buffer. -/
theorem Reaches.stores (h : Reaches s env path buf.length off i) (hb : BufOk (s.nodes i))
    (hoff : off + buf.length < 2 ^ 64) :
    ∃ need node d, Grown (s.nodes i) node need ∧ off + buf.length ≤ node.cap ∧
      (appendStores s env path buf off).2 = node.cap ∧
      (∀ k ∈ (appendStores s env path buf off).1, k < off + buf.length) ∧
      zeroBytes (node.data.getD []) node.size off = some d ∧
      tmpfsAppendFile s env path buf off = some ((buf.length : Int), s.setNode i { node with
        data := some (d.take off ++ buf ++ d.drop (off + buf.length))
        size := max (off + buf.length) node.size
        mtime := env.now }) := by
  obtain ⟨node, hgrow, hst, hap⟩ := h.append
  have hsmall := h.small
  have hg := ensureCap_some hb hgrow
  rw [Nat.mod_eq_of_lt hoff] at hgrow hap
  rw [Nat.mod_eq_of_lt (show off < 2 ^ 32 by omega)] at hap
  have hcap : off + buf.length ≤ node.cap :=
    Nat.le_trans (Nat.le_max_right ..) (ensureCap_some hb hgrow).enough
  -- both loops stay below `off + len`, which fits
  have hzero : ∃ d, zeroBytes (node.data.getD []) node.size off = some d := by
    by_cases hle : node.size ≤ off
    · exact ⟨_, zeroBytes_eq (by rw [hg.buf.len]; omega) hle⟩
    · exact ⟨_, by rw [zeroBytes, if_pos (by omega)]⟩
  obtain ⟨d, hd⟩ := hzero
  have hfit : off + buf.length ≤ d.length := by
    rw [zeroBytes_length hd, hg.buf.len]
    exact hcap
  refine ⟨_, node, d, hg, hcap, by rw [hst], fun k hk => ?_, hd, ?_⟩
  · rw [hst, mem_append, mem_map] at hk
    obtain hk | ⟨j, hj, rfl⟩ := hk
    · have := mem_range.1 (mem_of_mem_drop hk)
      omega
    · have := mem_range.1 hj
      omega
  · rw [hap, hd, Option.bind_some, storeBytes_eq hfit, Option.map_some]

theorem tmpfsAppendFile_isSome (h : TreeInv s) (env : Env) (path : CString) (buf : List UInt8)
    {off : Nat} (hoff : ∀ n, resolve s path = some n → (s.nodes n).isDir = false →
      off + buf.length < 2 ^ 64) :
    ∃ r, tmpfsAppendFile s env path buf off = some r := by
  by_cases hr : ∃ i, Reaches s env path buf.length off i
  · obtain ⟨i, hr⟩ := hr
    obtain ⟨_, node, d, -, -, -, -, -, hd⟩ := hr.stores (h.buf i) (hoff i hr.res hr.isDir)
    exact ⟨_, hd⟩
  · obtain ⟨-, e, -, he⟩ := tmpfsAppendFile_early (not_exists.1 hr)
    exact ⟨_, he⟩

end Append

/-! ## Whole runs -/

/-- The 64-bit end of a write at an offset of an existing file does not wrap around.  All other
calls may have any arguments in any state. -/
def Call.Fits (s : Tmpfs) : Call → Prop
  | .appendFile path buf off => ∀ n, resolve s path = some n → (s.nodes n).isDir = false →
      off + buf.length < 2 ^ 64
  | _ => True

/-- Every call of a run fits in the state it is made in. -/
def AllFit : Tmpfs → List (Env × Call) → Prop
  | _, [] => True
  | s, (env, c) :: cs => c.Fits s ∧ ∀ s', c.exec s env = some s' → AllFit s' cs

theorem Call.exec_treeInv (h : TreeInv s) {env : Env} {c : Call} (hc : c.exec s env = some s') :
    TreeInv s' := by
  cases c with
  | mount point => cases hc; exact testamentMount_treeInv h env point
  | writeFile path buf =>
    obtain ⟨r, hr, hi⟩ := tmpfsWriteFile_treeInv h env path buf
    simp only [Call.exec, hr] at hc
    cases hc; exact hi
  | appendFile path buf off =>
    simp only [Call.exec, Option.map_eq_some_iff] at hc
    obtain ⟨r, hr, rfl⟩ := hc
    exact tmpfsAppendFile_treeInv h hr
  | create path => cases hc; exact tmpfsCreate_treeInv h env path
  | mkdir path => cases hc; exact tmpfsMkdir_treeInv h env path
  | symlink target path =>
    obtain ⟨r, hr, hi⟩ := tmpfsSymlink_treeInv h env target path
    simp only [Call.exec, hr] at hc
    cases hc; exact hi
  | unlink path => cases hc; exact tmpfsUnlink_treeInv h path
  | rmdir path => cases hc; exact tmpfsRmdir_treeInv h path
  | rename oldPath newPath => cases hc; exact tmpfsRename_treeInv h oldPath newPath
  | truncate path newSize => cases hc; exact tmpfsTruncate_treeInv h env path newSize
  | chmod path mode | chown path uid gid | utime path atime mtime =>
    cases hc
    exact setAttr_treeInv h path fun n => ⟨rfl, rfl, rfl, rfl, fun hb => ⟨hb.le, hb.len⟩⟩

/-- A call that fits never stores outside a buffer. -/
theorem Call.exec_isSome (h : TreeInv s) (env : Env) {c : Call} (hc : c.Fits s) :
    ∃ s', c.exec s env = some s' := by
  cases c with
  | writeFile path buf =>
    obtain ⟨r, hr, -⟩ := tmpfsWriteFile_treeInv h env path buf
    exact ⟨r.2, by simp [Call.exec, hr]⟩
  | appendFile path buf off =>
    obtain ⟨r, hr⟩ := tmpfsAppendFile_isSome h env path buf hc
    exact ⟨r.2, by simp [Call.exec, hr]⟩
  | symlink target path =>
    obtain ⟨r, hr, -⟩ := tmpfsSymlink_treeInv h env target path
    exact ⟨r.2, by simp [Call.exec, hr]⟩
  | _ => exact ⟨_, rfl⟩

/-- Every state a run reaches satisfies the invariant. -/
theorem run_treeInv : ∀ (calls : List (Env × Call)) {s s' : Tmpfs}, TreeInv s →
    run s calls = some s' → TreeInv s'
  | [], s, s', h, hr => by cases hr; exact h
  | (env, c) :: calls, s, s', h, hr => by
    rw [run, Option.bind_eq_some_iff] at hr
    obtain ⟨s₁, hs₁, hr⟩ := hr
    exact run_treeInv calls (c.exec_treeInv h hs₁) hr

/-- A run whose calls fit reaches its end. -/
theorem run_isSome : ∀ (calls : List (Env × Call)) {s : Tmpfs}, TreeInv s → AllFit s calls →
    ∃ s', run s calls = some s'
  | [], s, _, _ => ⟨s, rfl⟩
  | (env, c) :: calls, s, h, hc => by
    obtain ⟨s₁, hs₁⟩ := Call.exec_isSome h env hc.1
    obtain ⟨s', hs'⟩ := run_isSome calls (c.exec_treeInv h hs₁) (hc.2 s₁ hs₁)
    exact ⟨s', by simp [run, hs₁, hs']⟩

/-- What the tree invariant promises to a reader of the table. -/
structure Tree (s : Tmpfs) : Prop where
  /-- A used node is the root of exactly one active mount or has a used directory as parent. -/
  place : ∀ i, (s.nodes i).used = true →
    (∃ m, (m < kMaxMounts ∧ (s.mounts m).active = true ∧ (s.mounts m).root = i) ∧
      ∀ m', m' < kMaxMounts ∧ (s.mounts m').active = true ∧ (s.mounts m').root = i → m' = m) ∨
    ∃ p, s.parentOf i = some p ∧ (s.nodes p).used = true ∧ (s.nodes p).isDir = true
  /-- Following parent links ends at a mount's root, after at most `kMaxNodes` steps. -/
  climbs : ∀ i, (s.nodes i).used = true → ∃ k r, k ≤ kMaxNodes ∧
    ancestor s.parentOf k i = some r ∧ s.parentOf r = none ∧ isMountRoot s r = true
  /-- Sibling names are pairwise distinct and not empty. -/
  siblings : ∀ i j p, (s.nodes i).used = true → (s.nodes j).used = true → i ≠ j →
    s.parentOf i = some p → s.parentOf j = some p → (s.nodes i).name ≠ (s.nodes j).name
  named : ∀ i p, (s.nodes i).used = true → s.parentOf i = some p → (s.nodes i).name ≠ []
  /-- The size is within the capacity, and a file that is not empty has a buffer. -/
  buffer : ∀ i, (s.nodes i).size ≤ (s.nodes i).cap ∧
    (0 < (s.nodes i).size → (s.nodes i).data ≠ none)

theorem TreeInv.tree (h : TreeInv s) : Tree s := by
  constructor
  · intro i hi
    cases hp : s.parentOf i with
    | none =>
      obtain ⟨m, hm, ha, hr⟩ := h.orphan i hi hp
      exact Or.inl ⟨m, ⟨hm, ha, hr⟩, fun m' h' =>
        h.rootInj m' m h'.1 hm h'.2.1 ha (h'.2.2.trans hr.symm)⟩
    | some p => exact Or.inr ⟨p, rfl, h.parent i p hi hp⟩
  · intro i hi
    obtain ⟨l, hl⟩ := h.lineage i hi
    have hu := h.lineage_used hi hl
    have hlen := hl.length_le fun j hj => h.bound j (hu j hj)
    obtain ⟨r, hr, hroot, hanc⟩ := hl.ancestor_root
    obtain ⟨m, hm, ha, hmr⟩ := h.orphan r (hu r hr) hroot
    refine ⟨l.length - 1, r, by omega, hanc, hroot, ?_⟩
    rw [isMountRoot, any_eq_true]
    exact ⟨m, mem_range.2 hm, by simp [ha, hmr]⟩
  · intro i j p hi hj hij hpi hpj hn
    exact hij (h.siblings i j p hi hj hpi hpj hn)
  · exact h.named
  · intro i
    have hb := h.buf i
    refine ⟨hb.le, fun hpos hnone => ?_⟩
    have := hb.len
    rw [hnone] at this
    have := hb.le
    simp at *
    omega

/-- **The tmpfs tree invariant.**  From the empty tables, any sequence of calls whose offset
writes to existing files do not wrap around runs to its end without touching memory outside a
buffer, and leaves the nodes of all mounts a forest: every used node is a mount's root or sits in
a directory, every walk towards the parents ends, siblings can be told apart and every buffer
holds its file. -/
theorem tmpfs_tree (calls : List (Env × Call)) (hc : AllFit empty calls) :
    ∃ s, run empty calls = some s ∧ Tree s := by
  obtain ⟨s, hs⟩ := run_isSome calls treeInv_empty hc
  exact ⟨s, hs, (run_treeInv calls treeInv_empty hs).tree⟩

theorem tmpfs_tree_create_append :
    ∃ s, run empty [(⟨0, true⟩, .mount (cstr "/tmp")), (⟨1, true⟩, .create (cstr "/tmp/a")),
      (⟨2, true⟩, .appendFile (cstr "/tmp/a") [1, 2] 5)] = some s ∧ Tree s :=
  tmpfs_tree _ ⟨trivial,
    fun _ _ => ⟨trivial, fun _ _ => ⟨fun _ _ _ => by decide, fun _ _ => trivial⟩⟩⟩

/-- The check of `tmpfs_append_file` is made on the wrapped end: two bytes at the last 64-bit
offset pass it, and are stored outside the buffer. -/
theorem not_tmpfs_tree_append_wrap :
    ¬ ∃ s, run empty [(⟨0, true⟩, .mount (cstr "/tmp")), (⟨1, true⟩, .create (cstr "/tmp/a")),
      (⟨2, true⟩, .appendFile (cstr "/tmp/a") [1, 2] (2 ^ 64 - 1))] = some s ∧ Tree s := by
  rintro ⟨s, hs, -⟩
  have hfault : (run empty [(⟨0, true⟩, .mount (cstr "/tmp")), (⟨1, true⟩, .create (cstr "/tmp/a")),
      (⟨2, true⟩, .appendFile (cstr "/tmp/a") [1, 2] (2 ^ 64 - 1))]).isSome = false := by
    decide +kernel
  rw [hs] at hfault
  cases hfault

end IndexOS.Testament
