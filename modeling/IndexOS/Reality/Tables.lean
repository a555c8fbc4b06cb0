import IndexOS.Reality.Paging

/-!
# What every page is for

The page tables of all address spaces live in one memory, so a statement about one table has to say
that no other table, and no page of data, is the same page.  Here every page is given a *role*: it
is outside the allocator's reach, free, a table at a certain place of a certain address space, or a
page of data for a certain slot.  As a page has one role only, tables at two places are two pages.

* `Shape m role` — the entries of the tables agree with the roles: an L1 entry is the one inherited
  from the kernel or leads to the L2 table of that place, an L2 entry is 0 or leads to the L3 table
  of that place, and an L3 entry is 0 or maps a page of data for that slot.
* `Shape.leaf_low` — the L3 entry a walk finds is the entry of the page with that role, so the walk
  itself need not be followed any more.
* `Shape.congr`, `Shape.rewrite`, `Attaches.shape` — the shape is kept when pages that are no tables
  change, when one L3 entry is written, and when a table is added at one of the two levels.
* `lookupL3_eq_leaf` — the walk of the source agrees with that of the model where no table of the
  kernel is met.
-/

set_option autoImplicit false

namespace IndexOS.Reality

open Function (update update_of_ne update_self)

/-! ## Descriptors -/

theorem links_tableEntry (f : Nat) : Links (tableEntry f) := by
  unfold Links tableEntry
  omega

theorem frameOf_tableEntry {f : Nat} (hf : f < 2 ^ 36) : frameOf (tableEntry f) = f := by
  unfold frameOf tableEntry
  omega

theorem not_links_zero : ¬ Links 0 := by decide

theorem links_pageEntry (f : Nat) (prot : UInt8) : Links (pageEntry f prot) := by
  unfold Links pageEntry pageAttrs
  split <;> split <;> omega

theorem frameOf_pageEntry {f : Nat} (hf : f < 2 ^ 36) (prot : UInt8) :
    frameOf (pageEntry f prot) = f := by
  unfold frameOf pageEntry pageAttrs
  split <;> split <;> omega

theorem writable_pageEntry (f : Nat) (prot : UInt8) :
    Writable (pageEntry f prot) ↔ canWrite prot = true := by
  refine ⟨fun h => ?_, fun h => ⟨links_pageEntry f prot, ?_⟩⟩
  · obtain ⟨-, hbits⟩ := h
    by_contra hcan
    unfold pageEntry pageAttrs at hbits
    rw [if_neg hcan] at hbits
    split at hbits <;> omega
  · unfold pageEntry pageAttrs
    rw [if_pos h]
    split <;> omega

/-- Without the bit `kVmaProtW` nothing can be written. -/
theorem canWrite_clear (prot : UInt8) : canWrite (prot &&& ~~~ kVmaProtW) = false := by
  have hclear : prot &&& ~~~ kVmaProtW &&& kVmaProtW = 0 := by
    rw [UInt8.and_assoc]
    have hbits : ~~~ kVmaProtW &&& kVmaProtW = 0 := by decide
    rw [hbits, UInt8.and_zero]
  simp [canWrite, hclear]

/-! ## Roles -/

/-- What a page is for. -/
inductive Role where
  | outside
  | free
  | root (s : SpaceId)
  | mid (s : SpaceId) (i : Fin 512)
  | low (s : SpaceId) (i j : Fin 512)
  | data (q : Slot)
deriving DecidableEq

/-- The role does not come and go with single pages: the page is a table, or outside. -/
def Role.Fixed (r : Role) : Prop := r ≠ .free ∧ ∀ q, r ≠ .data q

/-- The role is that of a table of the address space `s`. -/
def Role.Of (r : Role) (s : SpaceId) : Prop :=
  r = .root s ∨ (∃ i, r = .mid s i) ∨ ∃ i j, r = .low s i j

@[simp] theorem Role.fixed_outside : outside.Fixed := by constructor <;> simp
variable {a : Fin 512} (s : SpaceId) {r c : Role}

@[simp] theorem Role.fixed_root : (root s).Fixed := by constructor <;> simp
@[simp] theorem Role.fixed_mid (i : Fin 512) : (mid s i).Fixed := by
  constructor <;> simp
@[simp] theorem Role.fixed_low (i j : Fin 512) : (low s i j).Fixed := by
  constructor <;> simp

/-- The tables, and what is outside, are the same. -/
def SameTables (role role' : Nat → Role) : Prop :=
  ∀ f r, r.Fixed → (role' f = r ↔ role f = r)

/-- The entries of the tables agree with the roles. -/
structure Shape (m : Machine) (role : Nat → Role) : Prop where
  root_iff : ∀ s f, role f = .root s ↔ ∃ sp, m.spaces s = some sp ∧ sp.ttbr0 = f
  rootEntry : ∀ s f i, role f = .root s →
    m.mem f i = inheritedL1 m i ∨ ∃ g, m.mem f i = tableEntry g ∧ role g = .mid s i
  midParent : ∀ s i g, role g = .mid s i → ∃ f, role f = .root s ∧ m.mem f i = tableEntry g
  midEntry : ∀ s i j g, role g = .mid s i →
    m.mem g j = 0 ∨ ∃ h, m.mem g j = tableEntry h ∧ role h = .low s i j
  lowParent : ∀ s i j h, role h = .low s i j → ∃ g, role g = .mid s i ∧ m.mem g j = tableEntry h
  lowEntry : ∀ s i j k h, role h = .low s i j →
    m.mem h k = 0 ∨ ∃ f prot, m.mem h k = pageEntry f prot ∧ role f = .data (i, j, k)
  small : ∀ f, role f ≠ .outside → f < 2 ^ 36
  kernelL1 : role m.kernelL1 = .outside
  kernelEntry : ∀ i, Links (m.mem m.kernelL1 i) → role (frameOf (m.mem m.kernelL1 i)) = .outside

/-! An L1 entry and an L2 entry are two cases of one thing: an entry of a table that leads to a
table of the next level. -/

/-- The role of the table that an entry of a table leads to. -/
def Role.child : Role → Fin 512 → Option Role
  | .root s, i => some (.mid s i)
  | .mid s i, j => some (.low s i j)
  | _, _ => none

/-- What stands in an entry that leads nowhere. -/
def blank (m : Machine) : Role → Fin 512 → Nat
  | .root _, i => inheritedL1 m i
  | _, _ => 0

/-- Every entry of a table leads nowhere or to the table of its place, and every table but the first
is led to. -/
structure Trees (m : Machine) (role : Nat → Role) : Prop where
  entry : ∀ {r c : Role} {a : Fin 512} {g : Nat}, r.child a = some c → role g = r →
    m.mem g a = blank m r a ∨ ∃ h, m.mem g a = tableEntry h ∧ role h = c
  parent : ∀ {r c : Role} {a : Fin 512} {h : Nat}, r.child a = some c → role h = c →
    ∃ g, role g = r ∧ m.mem g a = tableEntry h

open Role

theorem Role.child_fixed (h : r.child a = some c) : r.Fixed ∧ c.Fixed := by
  cases r <;> simp only [child, Option.some.injEq, reduceCtorEq] at h <;> subst h <;> simp

theorem Role.child_ne (h : r.child a = some c) :
    r ≠ .outside ∧ (∀ u b d, r ≠ .low u b d) ∧ c ≠ .outside := by
  cases r <;> simp only [child, Option.some.injEq, reduceCtorEq] at h <;> subst h <;> simp

theorem Role.child_inj {r r' c : Role} {a a' : Fin 512} (h : r.child a = some c)
    (h' : r'.child a' = some c) : r = r' ∧ a = a' := by
  cases r <;> cases h <;> cases r' <;> cases h' <;> exact ⟨rfl, rfl⟩

theorem blank_child {m : Machine} (h : r.child a = some c) (b : Fin 512) : blank m c b = 0 := by
  cases r <;> simp only [child, Option.some.injEq, reduceCtorEq] at h <;> subst h <;> rfl

/-- The tables whose roles satisfy `K` are kept, and there are no others. -/
theorem Trees.keep {m m' : Machine} {role role' : Nat → Role} {K : Role → Prop} (T : Trees m role)
    (hblank : inheritedL1 m' = inheritedL1 m)
    (hrole : ∀ g r, r.Fixed → K r → (role' g = r ↔ role g = r))
    (hK : ∀ g r, r.Fixed → role' g = r → K r)
    (hchild : ∀ {r c a}, child r a = some c → (K r ↔ K c))
    (hmem : ∀ {r c a g}, child r a = some c → role g = r → m'.mem g = m.mem g) :
    Trees m' role' where
  entry {r c a g} hc hg := by
    obtain ⟨hr, hcf⟩ := child_fixed hc
    have hKr := hK g r hr hg
    rw [hrole g r hr hKr] at hg
    have hsame : blank m' r a = blank m r a := by
      cases r <;> simp [blank, hblank]
    rw [hmem hc hg, hsame]
    simpa only [hrole _ c hcf ((hchild hc).1 hKr)] using T.entry hc hg
  parent {r c a h} hc hh := by
    obtain ⟨hr, hcf⟩ := child_fixed hc
    have hKc := hK h c hcf hh
    rw [hrole h c hcf hKc] at hh
    obtain ⟨g, hg, hge⟩ := T.parent hc hh
    exact ⟨g, (hrole g r hr ((hchild hc).2 hKc)).2 hg, by rw [hmem hc hg]; exact hge⟩

namespace Shape

variable {m m' : Machine} {role role' : Nat → Role} {s : SpaceId} {i j k : Fin 512}
  {f g h l1 w : Nat}

section
variable (S : Shape m role)
include S

theorem root_unique (hf : role f = .root s) (hg : role g = .root s) : f = g := by
  obtain ⟨sp, hsp, rfl⟩ := (S.root_iff s f).1 hf
  obtain ⟨sp', hsp', rfl⟩ := (S.root_iff s g).1 hg
  rw [hsp] at hsp'
  rw [Option.some.inj hsp']

theorem mid_unique (hf : role f = .mid s i) (hg : role g = .mid s i) : f = g := by
  obtain ⟨r, hr, hre⟩ := S.midParent s i f hf
  obtain ⟨r', hr', hre'⟩ := S.midParent s i g hg
  rw [S.root_unique hr' hr, hre] at hre'
  unfold tableEntry at hre'
  omega

theorem low_unique (hf : role f = .low s i j) (hg : role g = .low s i j) : f = g := by
  obtain ⟨r, hr, hre⟩ := S.lowParent s i j f hf
  obtain ⟨r', hr', hre'⟩ := S.lowParent s i j g hg
  rw [S.mid_unique hr' hr, hre] at hre'
  unfold tableEntry at hre'
  omega

theorem frame_tableEntry (hf : role f ≠ .outside) : frameOf (tableEntry f) = f :=
  frameOf_tableEntry (S.small f hf)

/-- An entry that leads to a table of the process's own is not the kernel's. -/
theorem tableEntry_ne_kernel (hg : role g ≠ .outside) :
    tableEntry g ≠ m.mem m.kernelL1 i := by
  intro heq
  have hout := S.kernelEntry i (heq ▸ links_tableEntry g)
  rw [← heq, S.frame_tableEntry hg] at hout
  exact hg hout

theorem own_of_mid (he : m.mem f i = tableEntry g) (hg : role g = .mid s i) :
    Own m f i := by
  refine ⟨he ▸ links_tableEntry g, ?_⟩
  rw [he]
  exact S.tableEntry_ne_kernel (by rw [hg]; simp)

end

/-- An inherited entry does not lead to a table of the process's own. -/
theorem not_own_of_inherited (he : m.mem f i = inheritedL1 m i) : ¬ Own m f i := by
  intro hown
  unfold Own at hown
  rw [he] at hown
  unfold inheritedL1 at hown
  split at hown
  · exact not_links_zero hown.1
  · exact hown.2 rfl

section
variable (S : Shape m role)
include S

/-- **The walk.**  The entry found at a slot is the one in the L3 table with that role. -/
theorem leaf_low (hh : role h = .low s i j) (k : Fin 512) :
    leaf m s (i, j, k) = m.mem h k := by
  obtain ⟨g, hg, hge⟩ := S.lowParent s i j h hh
  obtain ⟨f, hf, hfe⟩ := S.midParent s i g hg
  obtain ⟨sp, hsp, rfl⟩ := (S.root_iff s f).1 hf
  have hgframe : frameOf (tableEntry g) = g := S.frame_tableEntry (by rw [hg]; simp)
  have hhframe : frameOf (tableEntry h) = h := S.frame_tableEntry (by rw [hh]; simp)
  unfold leaf
  simp only [hsp, if_pos (S.own_of_mid hfe hg), hfe, hgframe, hge, if_pos (links_tableEntry h),
    hhframe]

theorem exists_low (hne : leaf m s (i, j, k) ≠ 0) : ∃ h, role h = .low s i j := by
  unfold leaf at hne
  split at hne
  · exact absurd rfl hne
  · rename_i sp hsp
    have hroot : role sp.ttbr0 = .root s := (S.root_iff s _).2 ⟨sp, hsp, rfl⟩
    split at hne
    · rename_i hown
      rcases S.rootEntry s _ i hroot with he | ⟨g, hge, hg⟩
      · exact absurd hown (not_own_of_inherited he)
      · simp only [hge, S.frame_tableEntry (by rw [hg]; simp)] at hne
        rcases S.midEntry s i j g hg with he | ⟨h, hhe, hh⟩
        · rw [he] at hne
          exact absurd (if_neg not_links_zero) hne
        · exact ⟨h, hh⟩
    · exact absurd rfl hne

theorem leaf_eq_zero (hno : ∀ h, role h ≠ .low s i j) : leaf m s (i, j, k) = 0 := by
  by_contra hne
  obtain ⟨h, hh⟩ := S.exists_low hne
  exact hno h hh

/-- An L3 entry is 0 or maps a page of data for its slot. -/
theorem leaf_cases (s : SpaceId) (q : Slot) :
    leaf m s q = 0 ∨ ∃ f prot, leaf m s q = pageEntry f prot ∧ role f = .data q := by
  obtain ⟨i, j, k⟩ := q
  by_cases hzero : leaf m s (i, j, k) = 0
  · exact .inl hzero
  · obtain ⟨h, hh⟩ := S.exists_low hzero
    rw [S.leaf_low hh]
    exact S.lowEntry s i j k h hh

/-- A page that is mapped at a slot is a page of data for it. -/
theorem role_of_mapped {q : Slot} (hf : mapped m s q = some f) :
    role f = .data q := by
  unfold mapped at hf
  rcases S.leaf_cases s q with hzero | ⟨g, prot, hg, hrole⟩
  · rw [hzero] at hf
    cases hf
  · rw [hg, if_pos (links_pageEntry g prot),
      frameOf_pageEntry (S.small g (by rw [hrole]; simp)), Option.some.injEq] at hf
    rwa [← hf]

theorem mapped_of_leaf {q : Slot} {prot : UInt8} (hl : leaf m s q = pageEntry f prot)
    (hf : role f = .data q) : mapped m s q = some f := by
  unfold mapped
  rw [hl, if_pos (links_pageEntry f prot), frameOf_pageEntry (S.small f (by rw [hf]; simp))]

/-- The entry at a slot stays the same when the L3 table there does, up to new tables that are
empty. -/
theorem leaf_eq (S' : Shape m' role')
    (hlow : ∀ h, role h = .low s i j → role' h = .low s i j ∧ m'.mem h k = m.mem h k)
    (hnew : ∀ h, role' h = .low s i j → role h = .low s i j ∨ m'.mem h k = 0) :
    leaf m' s (i, j, k) = leaf m s (i, j, k) := by
  by_cases hex : ∃ h, role h = .low s i j
  · obtain ⟨h, hh⟩ := hex
    rw [S.leaf_low hh, S'.leaf_low (hlow h hh).1, (hlow h hh).2]
  · have hno : ∀ h, role h ≠ .low s i j := fun h hh => hex ⟨h, hh⟩
    rw [S.leaf_eq_zero hno]
    by_contra hne
    obtain ⟨h, hh⟩ := S'.exists_low hne
    rw [S'.leaf_low hh] at hne
    exact (hnew h hh).elim (hno h) hne

end

/-! ## Keeping the shape -/

section
variable (S : Shape m role)
include S

theorem trees : Trees m role where
  entry {r c a g} hc hg := by
    cases r with
    | root s => cases hc; exact S.rootEntry s g a hg
    | mid s i => cases hc; exact S.midEntry s i a g hg
    | _ => cases hc
  parent {r c a h} hc hh := by
    cases r with
    | root s => cases hc; exact S.midParent s a h hh
    | mid s i => cases hc; exact S.lowParent s i a h hh
    | _ => cases hc

omit S in
theorem inherited_congr (hkernelL1 : m'.kernelL1 = m.kernelL1)
    (hkernel : m'.mem m.kernelL1 = m.mem m.kernelL1) : inheritedL1 m' = inheritedL1 m := by
  unfold inheritedL1
  rw [hkernelL1, hkernel]

/-- The kernel's tables are as before, and the rest has been seen to. -/
theorem of_trees (hkernelL1 : m'.kernelL1 = m.kernelL1)
    (hkernel : m'.mem m.kernelL1 = m.mem m.kernelL1)
    (hout : ∀ f, role' f = .outside ↔ role f = .outside)
    (hroot : ∀ t f, role' f = .root t ↔ ∃ sp, m'.spaces t = some sp ∧ sp.ttbr0 = f)
    (T : Trees m' role')
    (hlow : ∀ t a b c g, role' g = .low t a b →
      m'.mem g c = 0 ∨ ∃ f prot, m'.mem g c = pageEntry f prot ∧ role' f = .data (a, b, c)) :
    Shape m' role' where
  root_iff := hroot
  rootEntry t _ _ hf := T.entry rfl hf
  midParent t _ _ hg := T.parent rfl hg
  midEntry t a _ _ hg := T.entry rfl hg
  lowParent t a _ _ hh := T.parent rfl hh
  lowEntry := hlow
  small f hf := S.small f (by rwa [ne_eq, ← hout])
  kernelL1 := by rw [hkernelL1, hout]; exact S.kernelL1
  kernelEntry a ha := by
    rw [hkernelL1, hkernel] at ha ⊢
    rw [hout]
    exact S.kernelEntry a ha

/-- What the shape of a machine depends on besides the tables. -/
structure SameFrame (m m' : Machine) : Prop where
  kernelL1 : m'.kernelL1 = m.kernelL1
  roots : ∀ s, (m'.spaces s).map Space.ttbr0 = (m.spaces s).map Space.ttbr0

omit S in
theorem SameFrame.root (hframe : SameFrame m m') (f : Nat) :
    (∃ sp, m'.spaces s = some sp ∧ sp.ttbr0 = f) ↔ ∃ sp, m.spaces s = some sp ∧ sp.ttbr0 = f := by
  have hroots := hframe.roots s
  rw [← Option.map_eq_some_iff, ← Option.map_eq_some_iff, hroots]

/-- One L3 entry is written, and pages of data may come and go: the shape is kept when every entry
still maps a page of data for its slot. -/
theorem rewrite (hh : role h = .low s i j) (hframe : SameFrame m m')
    (hmem : ∀ f, (role f).Fixed → ∀ c, m'.mem f c = if f = h ∧ c = k then w else m.mem f c)
    (hrole : SameTables role role')
    (hw : w = 0 ∨ ∃ f prot, w = pageEntry f prot ∧ role' f = .data (i, j, k))
    (hdata : ∀ t q f, ¬ (t = s ∧ q = (i, j, k)) → mapped m t q = some f → role' f = .data q) :
    Shape m' role' := by
  have hother : ∀ {f r}, role f = r → r.Fixed → r ≠ .low s i j → m'.mem f = m.mem f := by
    intro f r hf hr hne
    funext c
    rw [hmem f (hf ▸ hr), if_neg]
    rintro ⟨rfl, -⟩
    exact hne (hf.symm.trans hh)
  have hkernel := hother S.kernelL1 (by simp) (by simp)
  have hroot : ∀ t f, role' f = .root t ↔ ∃ sp, m'.spaces t = some sp ∧ sp.ttbr0 = f := by
    intro t f
    rw [hrole f _ (by simp), S.root_iff, hframe.root]
  have htrees : Trees m' role' := by
    refine S.trees.keep (inherited_congr hframe.kernelL1 hkernel)
      (fun g r hr _ => hrole g r hr) (fun _ _ _ _ => trivial) (fun _ => Iff.rfl)
      fun {r} _ _ _ hc hg => ?_
    refine hother hg (child_fixed hc).1 ?_
    rintro rfl
    cases hc
  refine S.of_trees hframe.kernelL1 hkernel (fun f => hrole f _ (by simp)) hroot htrees ?_
  intro t a b c g hg
  rw [hrole g _ (by simp)] at hg
  rw [hmem g (by simp [hg]) c]
  split
  next hhere =>
    obtain ⟨rfl, rfl⟩ := hhere
    rw [hh] at hg
    cases hg
    exact hw
  next hhere =>
    rcases S.lowEntry t a b c g hg with hzero | ⟨f, prot, he, hf⟩
    · exact .inl hzero
    · refine .inr ⟨f, prot, he, hdata t (a, b, c) f ?_ ?_⟩
      · rintro ⟨rfl, heq⟩
        cases heq
        exact hhere ⟨S.low_unique hg hh, rfl⟩
      · exact S.mapped_of_leaf (by rw [S.leaf_low hg]; exact he) hf

/-- The entries after one has been written. -/
theorem leaf_rewrite (S' : Shape m' role') (hh : role h = .low s i j)
    (hmem : ∀ f, (role f).Fixed → ∀ c, m'.mem f c = if f = h ∧ c = k then w else m.mem f c)
    (hrole : SameTables role role') (t : SpaceId) (q : Slot) :
    leaf m' t q = if t = s ∧ q = (i, j, k) then w else leaf m t q := by
  obtain ⟨a, b, c⟩ := q
  have hl : ∀ f t a b, role' f = .low t a b ↔ role f = .low t a b :=
    fun f t a b => hrole f _ (by simp)
  have hfixed : ∀ f t a b, role f = .low t a b → (role f).Fixed := by
    intro f t a b hf
    simp [hf]
  by_cases hhere : t = s ∧ (a, b, c) = (i, j, k)
  · obtain ⟨rfl, heq⟩ := hhere
    cases heq
    rw [S'.leaf_low ((hl h t i j).2 hh), hmem h (hfixed h _ _ _ hh), if_pos ⟨rfl, rfl⟩,
      if_pos ⟨rfl, rfl⟩]
  · rw [if_neg hhere]
    refine leaf_eq S S' (fun f hf => ⟨(hl f t a b).2 hf, ?_⟩) (fun f hf => .inl ((hl f t a b).1 hf))
    rw [hmem f (hfixed f _ _ _ hf), if_neg]
    rintro ⟨rfl, rfl⟩
    rw [hf] at hh
    cases hh
    exact hhere ⟨rfl, rfl⟩

end

section
variable (S : Shape m role) (hframe : SameFrame m m')
  (hmem : ∀ f, (role f).Fixed → m'.mem f = m.mem f)
include S hframe hmem

/-- Nothing but pages of data and free pages changes, and no page of data is lost. -/
theorem congr : Shape m' role := by
  have hkernel := hmem m.kernelL1 (by simp [S.kernelL1])
  refine S.of_trees hframe.kernelL1 hkernel (fun _ => Iff.rfl)
    (fun t f => by rw [S.root_iff, hframe.root]) ?_ fun t a b c g hg => ?_
  · refine S.trees.keep (inherited_congr hframe.kernelL1 hkernel)
      (fun _ _ _ _ => Iff.rfl) (fun _ _ _ _ => trivial) (fun _ => Iff.rfl) fun {r} _ _ g hc hg => ?_
    exact hmem g (hg ▸ (child_fixed hc).1)
  · rw [hmem g (by simp [hg])]
    exact S.lowEntry t a b c g hg

theorem leaf_congr (t : SpaceId) (q : Slot) :
    leaf m' t q = leaf m t q := by
  refine leaf_eq S (S.congr hframe hmem) (fun f hf => ⟨hf, ?_⟩) (fun f hf => .inl hf)
  rw [hmem f (by simp [hf])]

end

/-! ## A new table -/

/-- The free page `f`, cleared, becomes the table the entry `i` of the page `t` leads to. -/
structure Attaches (m m' : Machine) (t : Nat) (i : Fin 512) (f : Nat) : Prop where
  spaces : m'.spaces = m.spaces
  kernelL1 : m'.kernelL1 = m.kernelL1
  fresh : ∀ c, m'.mem f c = 0
  entry : m'.mem t i = tableEntry f
  rest : ∀ c, c ≠ i → m'.mem t c = m.mem t c
  others : ∀ g, g ≠ f → g ≠ t → m'.mem g = m.mem g

/-- A free page takes a fixed role: nothing else changes. -/
theorem update_iff (hf : role f = .free) {r r' : Role} (hne : r' ≠ r) (hfree : r' ≠ .free)
    (g : Nat) : update role f r g = r' ↔ role g = r' := by
  rcases eq_or_ne g f with rfl | hgf
  · rw [update_self, hf]
    exact ⟨fun h => absurd h.symm hne, fun h => absurd h.symm hfree⟩
  · rw [update_of_ne hgf]

variable {t : Nat}

theorem Attaches.kernel (A : Attaches m m' t i f) (S : Shape m role) (hf : role f = .free)
    (ht : role t ≠ .outside) : m'.mem m.kernelL1 = m.mem m.kernelL1 := by
  refine A.others _ ?_ ?_
  · rintro heq
    rw [← heq, S.kernelL1] at hf
    cases hf
  · rintro heq
    exact ht (heq ▸ S.kernelL1)

section
variable (A : Attaches m m' t i f) (S : Shape m role) (ht : role t = r) (hc : r.child i = some c)
  (hf : role f = .free) (hempty : ¬ Links (m.mem t i))
include A S ht hc hf hempty

/-- The page becomes the table that an entry of a table leads to which led nowhere. -/
theorem Attaches.trees
    (hinherit : inheritedL1 m' = inheritedL1 m) : Trees m' (update role f c) := by
  have hne : ∀ {g r}, role g = r → r.Fixed → g ≠ f := by
    rintro g r hg hr rfl
    exact hr.1 (hg.symm.trans hf)
  have hold : ∀ {g r}, role g = r → r.Fixed → update role f c g = r := fun hg hr => by
    rw [update_of_ne (hne hg hr), hg]
  constructor
  · intro r' c' a g hc' hg
    rcases eq_or_ne g f with rfl | hgf
    · rw [update_self] at hg
      subst hg
      exact .inl (by rw [A.fresh, blank_child hc])
    rw [update_of_ne hgf] at hg
    have hblank : blank m' r' a = blank m r' a := by cases r' <;> simp [blank, hinherit]
    by_cases hhere : g = t ∧ a = i
    · obtain ⟨rfl, rfl⟩ := hhere
      rw [← ht, hg, hc'] at hc
      cases hc
      exact .inr ⟨f, A.entry, update_self ..⟩
    · have hmem : m'.mem g a = m.mem g a := by
        rcases eq_or_ne g t with rfl | hgt
        · exact A.rest a fun ha => hhere ⟨rfl, ha⟩
        · rw [A.others g hgf hgt]
      rw [hmem, hblank]
      exact (S.trees.entry hc' hg).imp_right fun ⟨h, he, hh⟩ => ⟨h, he, hold hh (child_fixed hc').2⟩
  · intro r' c' a h hc' hh
    rcases eq_or_ne h f with rfl | hhf
    · rw [update_self] at hh
      subst hh
      obtain ⟨rfl, rfl⟩ := child_inj hc hc'
      exact ⟨t, hold ht (child_fixed hc).1, A.entry⟩
    · rw [update_of_ne hhf] at hh
      obtain ⟨g, hg, hge⟩ := S.trees.parent hc' hh
      refine ⟨g, hold hg (child_fixed hc').1, ?_⟩
      rcases eq_or_ne g t with rfl | hgt
      · rw [A.rest a (by rintro rfl; exact hempty (hge ▸ links_tableEntry h)), hge]
      · rw [A.others g (hne hg (child_fixed hc').1) hgt, hge]

/-- A new L2 or L3 table. -/
theorem Attaches.shape :
    Shape m' (update role f c) := by
  have hout : role t ≠ .outside := by rintro ho; rw [ho] at ht; subst ht; cases hc
  have hroot : ∀ u, root u ≠ c := by rintro u rfl; cases r <;> cases hc
  have hkernel := A.kernel S hf hout
  refine S.of_trees A.kernelL1 hkernel
    (update_iff hf (by rintro rfl; cases r <;> cases hc) (by simp))
    (fun u g => by rw [update_iff hf (hroot u) (by simp), S.root_iff, A.spaces])
    (A.trees S ht hc hf hempty (inherited_congr A.kernelL1 hkernel)) fun u a b d g hg => ?_
  rcases eq_or_ne g f with rfl | hgf
  · exact .inl (A.fresh d)
  · rw [update_of_ne hgf] at hg
    have hgt : g ≠ t := by
      rintro rfl
      rw [← ht, hg] at hc
      cases hc
    have hdata : ∀ q h, update role f c h = .data q ↔ role h = .data q := fun q =>
      update_iff hf (by rintro rfl; cases r <;> cases hc) (by simp)
    rw [A.others g hgf hgt]
    simpa only [hdata] using S.lowEntry u a b d g hg

end

variable (S : Shape m role)
include S

/-- New tables are empty, so no entry appears with them. -/
theorem leaf_attach {r : Role} (S' : Shape m' (update role f r))
    (hf : role f = .free) (ht : ∀ u a b, role t ≠ .low u a b) (A : Attaches m m' t i f)
    (u : SpaceId)
    (q : Slot) : leaf m' u q = leaf m u q := by
  obtain ⟨a, b, c⟩ := q
  refine leaf_eq S S' (fun g hg => ?_) (fun g hg => ?_)
  · have hgf : g ≠ f := fun heq => by rw [heq, hf] at hg; cases hg
    have hgt : g ≠ t := fun heq => ht u a b (heq ▸ hg)
    rw [update_of_ne hgf, A.others g hgf hgt]
    exact ⟨hg, rfl⟩
  · rcases eq_or_ne g f with rfl | hgf
    · exact .inr (A.fresh c)
    · rw [update_of_ne hgf] at hg
      exact .inl hg

/-! ## A new address space, and one that goes -/

/-- The L1 table of a new address space. -/
theorem addRoot {sp : Space} (hs : m.spaces s = none) (hf : role f = .free)
    (hspaces : m'.spaces = update m.spaces s (some sp)) (hsp : sp.ttbr0 = f)
    (hkernelL1 : m'.kernelL1 = m.kernelL1) (hpage : m'.mem f = inheritedL1 m)
    (hmem : ∀ g, g ≠ f → m'.mem g = m.mem g) : Shape m' (update role f (.root s)) := by
  have hne : ∀ {g r}, role g = r → r ≠ .free → g ≠ f := by
    rintro g r hg hr rfl
    exact hr (hg.symm.trans hf)
  have hkernel : m'.mem m.kernelL1 = m.mem m.kernelL1 := hmem _ (hne S.kernelL1 (by simp))
  have hinherit := inherited_congr hkernelL1 hkernel
  have hnone : ∀ g, role g ≠ .root s := by
    intro g hg
    obtain ⟨sp', hsp', -⟩ := (S.root_iff s g).1 hg
    rw [hs] at hsp'
    cases hsp'
  have hdata : ∀ q g, update role f (.root s) g = .data q ↔ role g = .data q :=
    fun q g => update_iff hf (by simp) (by simp) g
  have hold : ∀ {g r}, role g = r → r.Fixed → update role f (.root s) g = r := fun hg hr => by
    rw [update_of_ne (hne hg hr.1), hg]
  refine S.of_trees hkernelL1 hkernel (update_iff hf (by simp) (by simp)) (fun u g => ?_)
    ⟨fun {r c a g} hc hg => ?_, fun {r c a h} hc hh => ?_⟩ fun u a b c g hg => ?_
  · rw [hspaces]
    rcases eq_or_ne u s with rfl | hus
    · rw [update_self]
      constructor
      · intro hg
        rcases eq_or_ne g f with rfl | hgf
        · exact ⟨sp, rfl, hsp⟩
        · rw [update_of_ne hgf] at hg
          exact absurd hg (hnone g)
      · rintro ⟨sp', hsp', rfl⟩
        cases hsp'
        rw [hsp, update_self]
    · rw [update_of_ne hus, update_iff hf (by simpa using hus) (by simp), S.root_iff]
  · have hblank : blank m' r a = blank m r a := by cases r <;> simp [blank, hinherit]
    rcases eq_or_ne g f with rfl | hgf
    · rw [update_self] at hg
      subst hg
      exact .inl (by rw [hblank, hpage]; rfl)
    · rw [update_of_ne hgf] at hg
      rw [hmem g hgf, hblank]
      exact (S.trees.entry hc hg).imp_right fun ⟨h, he, hh⟩ => ⟨h, he, hold hh (child_fixed hc).2⟩
  · have hhf : h ≠ f := by
      rintro rfl
      rw [update_self] at hh
      subst hh
      cases r <;> cases hc
    rw [update_of_ne hhf] at hh
    obtain ⟨g, hg, hge⟩ := S.trees.parent hc hh
    have hr := (child_fixed hc).1
    exact ⟨g, hold hg hr, by rw [hmem g (hne hg hr.1)]; exact hge⟩
  · rw [update_iff hf (by simp) (by simp)] at hg
    rw [hmem g (hne hg (by simp))]
    simpa only [hdata] using S.lowEntry u a b c g hg

/-- An address space goes with its tables, and pages of data that nobody maps may become free. -/
theorem close (hs : m'.spaces s = none) (hspaces : ∀ u, u ≠ s → m'.spaces u = m.spaces u)
    (hkernelL1 : m'.kernelL1 = m.kernelL1) (hmem : m'.mem = m.mem)
    (hrole : ∀ f r, r.Fixed → ¬ r.Of s → (role' f = r ↔ role f = r)) (hgone : ∀ f, ¬ (role' f).Of s)
    (hdata : ∀ u q f, u ≠ s → mapped m u q = some f → role' f = .data q) : Shape m' role' := by
  have hkernel : m'.mem m.kernelL1 = m.mem m.kernelL1 := by rw [hmem]
  refine S.of_trees hkernelL1 hkernel (fun g => hrole g _ (by simp) (by simp [Of])) (fun u g => ?_)
    (S.trees.keep (inherited_congr hkernelL1 hkernel) hrole
      (fun g r _ hg => hg ▸ hgone g) (fun {r} _ _ hc => ?_) fun _ _ => by rw [hmem])
        fun u a b c g hg => ?_
  · rcases eq_or_ne u s with rfl | hu
    · constructor
      · exact fun hg => absurd (.inl hg) (hgone g)
      · rintro ⟨sp, hsp, -⟩
        rw [hs] at hsp
        cases hsp
    · rw [hrole g _ (by simp) (by simpa [Of] using hu), hspaces u hu, S.root_iff]
  · cases r <;> cases hc <;> simp [Of]
  · have hu : u ≠ s := by
      rintro rfl
      exact hgone g (.inr (.inr ⟨a, b, hg⟩))
    rw [hrole g _ (by simp) (by simpa [Of] using hu)] at hg
    rw [hmem]
    rcases S.lowEntry u a b c g hg with hzero | ⟨f, prot, he, hf⟩
    · exact .inl hzero
    · exact .inr ⟨f, prot, he, hdata u (a, b, c) f hu
        (S.mapped_of_leaf (by rw [S.leaf_low hg]; exact he) hf)⟩

end Shape

/-! ## The walk of the source -/

/-- Where the walk does not meet a table of the kernel, it finds the entry of the process. -/
theorem lookupL3_eq_leaf {m : Machine} {s : SpaceId} {sp : Space} {va : Nat}
    (hsp : m.spaces s = some sp) (h : ¬ SharesKernel m sp.ttbr0 va) :
    lookupL3 m sp.ttbr0 va = leaf m s (slotOf va) := by
  unfold lookupL3 leaf slotOf
  simp only [hsp]
  by_cases hlinks : Links (m.mem sp.ttbr0 (l1Index va))
  · have hown : Own m sp.ttbr0 (l1Index va) := ⟨hlinks, fun heq => h ⟨hlinks, heq⟩⟩
    rw [if_pos hlinks, if_pos hown]
  · rw [if_neg hlinks, if_neg (fun hown : Own m sp.ttbr0 (l1Index va) => hlinks hown.1)]

end IndexOS.Reality
