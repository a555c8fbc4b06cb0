import IndexOS.Reality.Teardown

/-!
# Fork

`pr2_fork` walks the regions of the parent, not its tables: a page whose slot is covered by two
regions is shared twice, and its counter then counts one entry twice.  So the counters stay at least
the number of entries whatever the regions are, as long as none of them runs over, and stay equal to
it when no page is met a second time.

* `createAddrSpace_spec` — a new address space maps nothing;
* `forkPage_spec` — one page of the walk;
* `forkPlan`, `forkVmas_eq` — the two loops of the source as one walk over a list of pages;
* `Sharable` — what the walk needs of the pages that are left, and `forkAll_spec` — the walk;
* `fork_spec` — the whole of `pr2_fork`, whether it succeeds or not.
-/

set_option autoImplicit false

namespace IndexOS.Reality

open List Machine
open Function (update update_eq_self update_of_ne update_self)
open TreeDiagram (kPageSize)

variable {ps : List (Nat × UInt8)}

variable {G : Ground} {m m' : Machine} {role role' : Nat → Role} {s c : SpaceId} {f l1 : Nat}
  {x : Nat × UInt8}

/-! ## A new address space -/

/-- What `createAddrSpace` leaves: an address space more, and nothing else that can be seen. -/
structure Created (m m' : Machine) (c : SpaceId) (l1 : Nat) : Prop where
  was : m.spaces c = none
  now : m'.spaces c = some { ttbr0 := l1 }
  others : ∀ t, t ≠ c → m'.spaces t = m.spaces t
  leaf_eq : ∀ t q, leaf m' t q = leaf m t q
  refs_eq : m'.refs = m.refs

theorem createAddrSpace_spec (I : Inv G m role) (h : createAddrSpace m = some (c, l1, m')) :
    ∃ role', Inv G m' role' ∧ Created m m' c l1 := by
  unfold createAddrSpace at h
  split at h
  · cases h
  · rename_i s hs
    have hnone : m.spaces s = none := by
      have hfound := find?_some hs
      simpa using hfound
    rcases allocPageZeroed_eq m with ⟨hfull, -⟩ | ⟨g, rest, hpool, hsome⟩
    · rw [hfull] at h
      cases h
    · rw [hsome] at h
      simp only [Option.some.injEq, Prod.mk.injEq] at h
      obtain ⟨rfl, rfl, rfl⟩ := h
      have hfree := I.head_free hpool
      have hkernel : m.kernelL1 ≠ g := by
        intro heq
        rw [← heq, I.shape.kernelL1] at hfree
        cases hfree
      have hinherit : inheritedL1 (m.draw g rest) = inheritedL1 m := by
        funext i
        simp [inheritedL1, draw, setPage, hkernel]
      rw [hinherit]
      generalize hm' : ((m.draw g rest).setPage g (inheritedL1 m)).setSpace s
        (some { ttbr0 := g }) = m'
      have hmem : ∀ x, x ≠ g → m'.mem x = m.mem x := by
        intro x hx
        rw [← hm']
        simp [setSpace, draw, setPage, hx]
      have hspaces : m'.spaces = update m.spaces s (some { ttbr0 := g }) := by
        funext t
        rw [← hm']
        rcases eq_or_ne t s with rfl | ht
        · rw [update_self, setSpace_spaces_self]
        · rw [update_of_ne ht]
          exact if_neg ht
      have hkernel' : m'.kernelL1 = m.kernelL1 := by rw [← hm']; rfl
      have hrefs : m'.refs = m.refs := by rw [← hm']; rfl
      have hrest : m'.pool = rest := by rw [← hm']; rfl
      have S' : Shape m' (update role g (.root s)) :=
        I.shape.addRoot hnone hfree hspaces rfl hkernel'
          (by rw [← hm']; simp [setSpace, setPage]) hmem
      have hleaf : ∀ t q, leaf m' t q = leaf m t q := by
        rintro t ⟨a, b, d⟩
        have hlow : ∀ h, update role g (.root s) h = .low t a b ↔ role h = .low t a b :=
          fun h => Shape.update_iff hfree (by simp) (by simp) h
        refine Shape.leaf_eq I.shape S' (fun h hh => ⟨(hlow h).2 hh, ?_⟩)
          (fun h hh => .inl ((hlow h).1 hh))
        have hne : h ≠ g := by
          rintro rfl
          rw [hfree] at hh
          cases hh
        rw [hmem h hne]
      refine ⟨_, I.take hpool (by simp) (by simp) S' hleaf hrefs hrest hkernel' fun x hx =>
        hmem x ?_, ⟨hnone, ?_, ?_, hleaf, hrefs⟩⟩
      · rintro rfl
        rw [hx] at hfree
        cases hfree
      · rw [hspaces, update_self]
      · intro t ht
        rw [hspaces, update_of_ne ht]

/-! ## One page -/

/-- What one page of the walk changes: the child may come to map the page the parent maps at the
slot, and its counter goes up by one. -/
structure Shared (m m' : Machine) (s c : SpaceId) (q : Slot) : Prop where
  spaces_eq : m'.spaces = m.spaces
  held_others : ∀ p, p ≠ (c, q) → held m' p = held m p
  held_child : held m' (c, q) = held m (c, q) ∨ held m' (c, q) = held m (s, q)
  refs_others : ∀ f, held m (s, q) ≠ some f → m'.refs f = m.refs f
  refs_le : ∀ f, m'.refs f ≤ m.refs f + 1

theorem Grown.shared (hg : Grown m m' role role') (s c : SpaceId) (q : Slot) :
    Shared m m' s c q where
  spaces_eq := hg.spaces_eq
  held_others p _ := by rw [hg.held_eq]
  held_child := .inl (by rw [hg.held_eq])
  refs_others f _ := by rw [hg.refs_eq]
  refs_le f := by rw [hg.refs_eq]; omega

/-- The page at `va` is shared. -/
theorem forkPage_spec (I : Inv G m role) {p₁ p₂ : Nat} (hp : role p₁ = .root s)
    (hc : role p₂ = .root c) (prot : UInt8) (va : Nat)
    (hchild : ∀ f, held m (s, slotOf va) = some f →
      held m (c, slotOf va) = none ∨ held m (c, slotOf va) = some f ∧ ¬ G.exact)
    (hlt : ∀ f, held m (s, slotOf va) = some f → Tracked f → m.refs f + 1 < 2 ^ 16) :
    ∃ role', Inv G (forkPage p₁ p₂ prot m va).1 role' ∧
      Shared m (forkPage p₁ p₂ prot m va).1 s c (slotOf va) := by
  obtain ⟨role₁, I₁, hgrown₁, hlow₁⟩ := ensureL3_spec I hp va
  unfold forkPage
  generalize ensureL3 m p₁ va = r at *
  obtain ⟨m₁, _ | pl3⟩ := r
  · exact ⟨role₁, I₁, hgrown₁.shared s c _⟩
  · have hpl3 : role₁ pl3 = .low s (l1Index va) (l2Index va) := (hlow₁ pl3 rfl).1
    simp only
    split
    · rename_i hlinks
      obtain ⟨f, old, he, hf, hheld₁⟩ := I₁.held_of_links hpl3 hlinks
      have hheld : held m (s, slotOf va) = some f := by
        rw [← hgrown₁.held_eq]
        exact hheld₁
      have hsmall := I₁.small hf
      have hro := canWrite_clear prot
      rw [he, frameOf_pageEntry hsmall]
      generalize prot &&& ~~~ kVmaProtW = ro at *
      -- The parent's entry becomes read-only.
      obtain ⟨I₂, E₂⟩ := I₁.permit hpl3 hheld₁ ro
        (fun _ hcanw => by rw [hro] at hcanw; cases hcanw)
      have hheld₂ : held (m₁.setWord pl3 (l3Index va) (pageEntry f ro)) = held m := by
        rw [E₂.held_eq, pageOf_pageEntry hsmall, ← hheld₁]
        exact (update_eq_self _ _).trans hgrown₁.held_eq
      have hleaf₂ : leaf (m₁.setWord pl3 (l3Index va) (pageEntry f ro)) s (slotOf va) = pageEntry f
        ro := by
        rw [E₂.leaf_eq]
        exact if_pos rfl
      have hc₁ : role₁ p₂ = .root c := by
        rw [hgrown₁.role_eq p₂ (by rw [hc]; simp)]
        exact hc
      obtain ⟨role₃, I₃, hgrown₃, hlow₃⟩ := ensureL3_spec I₂ hc₁ va
      have hspaces : (m₁.setWord pl3 (l3Index va) (pageEntry f ro)).spaces = m.spaces :=
        hgrown₁.spaces_eq
      have hrefs : (m₁.setWord pl3 (l3Index va) (pageEntry f ro)).refs = m.refs := hgrown₁.refs_eq
      generalize m₁.setWord pl3 (l3Index va) (pageEntry f ro) = m₂ at *
      generalize ensureL3 m₂ p₂ va = r at *
      obtain ⟨m₃, _ | cl3⟩ := r
      · refine ⟨role₃, I₃, hgrown₃.spaces_eq.trans hspaces, fun p _ => ?_, .inl ?_, fun x _ => ?_,
          fun x => ?_⟩
        · rw [hgrown₃.held_eq, hheld₂]
        · rw [hgrown₃.held_eq, hheld₂]
        · rw [hgrown₃.refs_eq, hrefs]
        · rw [hgrown₃.refs_eq, hrefs]
          omega
      · -- The child's entry maps the same page, which gains a reference.
        have hheld₃ : held m₃ = held m := hgrown₃.held_eq.trans hheld₂
        have hrefs₃ : m₃.refs = m.refs := hgrown₃.refs_eq.trans hrefs
        obtain ⟨I₄, E₄⟩ := I₃.share (hlow₃ cl3 rfl).1
          (by rw [hheld₃]; exact hheld) (by rw [hheld₃]; exact hchild f hheld) ro hro
          (by
            rw [hgrown₃.leaf_eq]
            show ¬ Writable (leaf m₂ s (slotOf va))
            rw [hleaf₂, writable_pageEntry, hro]
            simp)
          (by rw [hrefs₃]; exact hlt f hheld)
        refine ⟨role₃, I₄, (E₄.spaces_eq.trans hgrown₃.spaces_eq).trans hspaces,
          fun p hp' => ?_, .inr ?_,
          fun x hx => ?_, fun x => ?_⟩
        · rw [E₄.held_eq, hheld₃]
          exact update_of_ne hp' _ _
        · rw [E₄.held_eq, pageOf_pageEntry hsmall, hheld]
          exact update_self ..
        · have hxf : x ≠ f := by
            rintro rfl
            exact hx hheld
          rw [pageRef_refs_ne _ hxf]
          show m₃.refs x = m.refs x
          rw [hrefs₃]
        · rw [← hrefs₃]
          exact pageRef_refs_le _ f x
    · exact ⟨role₁, I₁, hgrown₁.shared s c _⟩

/-! ## The walk -/

/-- The pages `pr2_fork` visits, in order, each with the protection of the region it is met in. -/
def forkPlan (vs : List Vma) : List (Nat × UInt8) :=
  vs.flatMap fun v =>
    if v.kind = .free then []
    else (pagesFrom ((v.fin - v.start) / kPageSize) v.start).map (·, v.prot)

/-- How often a slot is met. -/
def visits (ps : List (Nat × UInt8)) (q : Slot) : Nat := ps.countP fun x => slotOf x.1 = q

/-- The walk over a list of pages. -/
def forkAll (p c : Nat) : List (Nat × UInt8) → Machine → Machine × Bool
  | [], m => (m, true)
  | (va, prot) :: ps, m =>
    match forkPage p c prot m va with
    | (m, false) => (m, false)
    | (m, true) => forkAll p c ps m

theorem forkAll_append (p c : Nat) (ps ps' : List (Nat × UInt8)) :
    ∀ m, forkAll p c (ps ++ ps') m =
      match forkAll p c ps m with
      | (m, false) => (m, false)
      | (m, true) => forkAll p c ps' m := by
  induction ps with
  | nil => exact fun m => rfl
  | cons x ps ih =>
    intro m
    obtain ⟨va, prot⟩ := x
    simp only [cons_append, forkAll]
    generalize forkPage p c prot m va = r
    obtain ⟨m', _ | _⟩ := r
    · rfl
    · exact ih m'

theorem forkPages_eq (p c : Nat) (prot : UInt8) (n : Nat) :
    ∀ va m, forkPages p c prot n va m = forkAll p c ((pagesFrom n va).map (·, prot)) m := by
  induction n with
  | zero => exact fun va m => rfl
  | succ n ih =>
    intro va m
    unfold forkPages pagesFrom
    rw [map_cons]
    unfold forkAll
    generalize forkPage p c prot m va = r
    obtain ⟨m', _ | _⟩ := r
    · rfl
    · exact ih _ m'

theorem forkVmas_eq (p c : Nat) (vs : List Vma) :
    ∀ m, forkVmas p c vs m = forkAll p c (forkPlan vs) m := by
  induction vs with
  | nil => exact fun m => rfl
  | cons v vs ih =>
    intro m
    have hplan : forkPlan (v :: vs) = (if v.kind = .free then [] else
        (pagesFrom ((v.fin - v.start) / kPageSize) v.start).map (·, v.prot)) ++ forkPlan vs := rfl
    rw [hplan, forkAll_append]
    unfold forkVmas
    split
    · exact ih m
    · rw [forkPages_eq]
      generalize forkAll p c _ m = r
      obtain ⟨m', _ | _⟩ := r
      · rfl
      · exact ih m'

/-- What the walk needs: the child maps what the parent maps at the same slot or nothing, no counter
runs over, and, when the counters are exact, no page is met again. -/
structure Sharable (G : Ground) (s c : SpaceId) (ps : List (Nat × UInt8)) (m : Machine) : Prop where
  child : ∀ q, held m (c, q) = none ∨ held m (c, q) = held m (s, q)
  room : ∀ x ∈ ps, ∀ f, held m (s, slotOf x.1) = some f → Tracked f →
    m.refs f + visits ps (slotOf x.1) < 2 ^ 16
  once : G.exact → ∀ x ∈ ps, held m (s, slotOf x.1) ≠ none →
    held m (c, slotOf x.1) = none ∧ visits ps (slotOf x.1) ≤ 1

theorem visits_cons (x : Nat × UInt8) (ps : List (Nat × UInt8)) (q : Slot) :
    visits (x :: ps) q = visits ps q + if slotOf x.1 = q then 1 else 0 := by
  unfold visits
  rw [countP_cons]
  simp

theorem visits_pos (hx : x ∈ ps) : 0 < visits ps (slotOf x.1) :=
  countP_pos_iff.2 ⟨x, hx, by simp⟩

theorem Sharable.child_head {va : Nat} {prot : UInt8} (hS : Sharable G s c ((va, prot) :: ps) m)
    (f : Nat) (hf : held m (s, slotOf va) = some f) :
    held m (c, slotOf va) = none ∨ held m (c, slotOf va) = some f ∧ ¬ G.exact := by
  rcases hS.child (slotOf va) with hnone | heq
  · exact .inl hnone
  · by_cases hex : G.exact
    · refine .inl (hS.once hex (va, prot) (mem_cons_self ..) ?_).1
      rw [hf]
      simp
    · exact .inr ⟨heq.trans hf, hex⟩

theorem Sharable.room_head {va : Nat} {prot : UInt8} (hS : Sharable G s c ((va, prot) :: ps) m)
    (f : Nat) (hf : held m (s, slotOf va) = some f) (ht : Tracked f) : m.refs f + 1 < 2 ^ 16 := by
  have hroom := hS.room (va, prot) (mem_cons_self ..) f hf ht
  have hpos := visits_pos (mem_cons_self (a := (va, prot)) (l := ps))
  omega

/-- **One page less.** -/
theorem Sharable.next (I : Inv G m role) (hne : c ≠ s) (hS : Sharable G s c (x :: ps) m)
    (hshared : Shared m m' s c (slotOf x.1)) : Sharable G s c ps m' := by
  have hparent : ∀ q, held m' (s, q) = held m (s, q) := by
    intro q
    refine hshared.held_others (s, q) ?_
    intro heq
    rw [Prod.mk.injEq] at heq
    exact hne heq.1.symm
  have hchild : ∀ q, q ≠ slotOf x.1 → held m' (c, q) = held m (c, q) := by
    intro q hq
    refine hshared.held_others (c, q) ?_
    intro heq
    rw [Prod.mk.injEq] at heq
    exact hq heq.2
  refine ⟨fun q => ?_, fun y hy f hf ht => ?_, fun hex y hy hpresent => ?_⟩
  · rw [hparent]
    by_cases hq : q = slotOf x.1
    · subst hq
      rcases hshared.held_child with h | h
      · rw [h]
        exact hS.child _
      · exact .inr h
    · rw [hchild q hq]
      exact hS.child q
  · rw [hparent] at hf
    have hroom := hS.room y (mem_cons_of_mem _ hy) f hf ht
    rw [visits_cons] at hroom
    by_cases hslot : slotOf x.1 = slotOf y.1
    · rw [if_pos hslot] at hroom
      have hle := hshared.refs_le f
      omega
    · have hother : held m (s, slotOf x.1) ≠ some f := fun h => hslot (I.slot_eq hf h)
      rw [hshared.refs_others f hother]
      omega
  · rw [hparent] at hpresent
    obtain ⟨hnone, hcount⟩ := hS.once hex y (mem_cons_of_mem _ hy) hpresent
    have hpos := visits_pos hy
    rw [visits_cons] at hcount
    have hslot : slotOf x.1 ≠ slotOf y.1 := by
      intro hslot
      rw [if_pos hslot] at hcount
      omega
    rw [hchild _ (Ne.symm hslot)]
    exact ⟨hnone, by omega⟩

/-- **The walk** keeps the invariant, and the pages of every address space but the child. -/
theorem forkAll_spec {sp₁ sp₂ : Space} (hne : c ≠ s) (ps : List (Nat × UInt8)) :
    ∀ (m : Machine) (role : Nat → Role), Inv G m role → m.spaces s = some sp₁ →
      m.spaces c = some sp₂ →
      Sharable G s c ps m → ∃ role', Inv G (forkAll sp₁.ttbr0 sp₂.ttbr0 ps m).1 role' ∧
        ∀ p : SpaceId × Slot, p.1 ≠ c → held (forkAll sp₁.ttbr0 sp₂.ttbr0 ps m).1 p = held m p := by
  induction ps with
  | nil => exact fun m role I _ _ _ => ⟨role, I, fun _ _ => rfl⟩
  | cons x ps ih =>
    intro m role I hs hc hS
    obtain ⟨va, prot⟩ := x
    obtain ⟨role', I', hshared⟩ := forkPage_spec I (I.root hs) (I.root hc) prot va hS.child_head
      hS.room_head
    have hnext := hS.next I hne hshared
    have hheld (p : SpaceId × Slot) (hp : p.1 ≠ c) :=
      hshared.held_others p fun h => hp (congrArg Prod.fst h)
    unfold forkAll
    generalize forkPage sp₁.ttbr0 sp₂.ttbr0 prot m va = r at *
    obtain ⟨m', _ | _⟩ := r
    · exact ⟨role', I', hheld⟩
    · obtain ⟨role'', I'', hrest⟩ :=
        ih m' role' I' (hshared.spaces_eq ▸ hs) (hshared.spaces_eq ▸ hc) hnext
      exact ⟨role'', I'', fun p hp => (hrest p hp).trans (hheld p hp)⟩

/-! ## The whole of fork -/

/-- No counter runs over: with the pages of the regions still to be shared, it stays below
2 ^ 16. -/
def NoWrap (m : Machine) (s : SpaceId) : Prop :=
  ∀ sp ∈ m.spaces s, ∀ x ∈ forkPlan sp.vmas, ∀ f ∈ mapped m s (slotOf x.1), Tracked f →
    m.refs f + visits (forkPlan sp.vmas) (slotOf x.1) < 2 ^ 16

/-- No page that is mapped is met in two regions, or twice in one. -/
def MetOnce (m : Machine) (s : SpaceId) : Prop :=
  ∀ sp ∈ m.spaces s, ∀ x ∈ forkPlan sp.vmas, (mapped m s (slotOf x.1)).isSome = true →
    visits (forkPlan sp.vmas) (slotOf x.1) ≤ 1

/-- The machine in which the walk of a fork starts: the child is there and maps nothing. -/
structure ForkStart (G : Ground) (m m₂ : Machine) (s c : SpaceId) (sp : Space) (l1 : Nat)
    (role : Nat → Role) : Prop where
  inv : Inv G m₂ role
  ne : c ≠ s
  held_eq : held m₂ = held m
  was : ∀ q, held m (c, q) = none
  parent : m₂.spaces s = some sp
  child : m₂.spaces c = some { sp with ttbr0 := l1 }
  sharable : Sharable G s c (forkPlan sp.vmas) m₂

theorem fork_start (I : Inv G m role) {sp : Space} {l1 : Nat} {m₁ : Machine}
    (hsp : m.spaces s = some sp) (hcreate : createAddrSpace m = some (c, l1, m₁))
    (hroom : NoWrap m s)
    (honce : G.exact → MetOnce m s) :
    ∃ role', ForkStart G m (m₁.setSpace c (some { sp with ttbr0 := l1 })) s c sp l1 role' := by
  obtain ⟨role₁, I₁, hcreated⟩ := createAddrSpace_spec I hcreate
  have hne : c ≠ s := by
    rintro rfl
    rw [hcreated.was] at hsp
    cases hsp
  obtain ⟨I₂, hleaf₂⟩ := I₁.setSpace hcreated.now { sp with ttbr0 := l1 } rfl
  have hheld₂ : held (m₁.setSpace c (some { sp with ttbr0 := l1 })) = held m := by
    rw [held_congr hleaf₂, held_congr hcreated.leaf_eq]
  have hrefs₂ : (m₁.setSpace c (some { sp with ttbr0 := l1 })).refs = m.refs := hcreated.refs_eq
  have hnone : ∀ q, held m (c, q) = none := by
    intro q
    unfold held mapped leaf
    rw [hcreated.was]
    rfl
  have hs₂ : (m₁.setSpace c (some { sp with ttbr0 := l1 })).spaces s = some sp := by
    rw [← hsp, ← hcreated.others s (Ne.symm hne)]
    exact if_neg (Ne.symm hne)
  refine ⟨role₁, I₂, hne, hheld₂, hnone, hs₂, setSpace_spaces_self .., fun q => .inl ?_,
    fun x hx f hf ht => ?_, fun hex x hx hpresent => ⟨?_, ?_⟩⟩
  · rw [hheld₂]
    exact hnone q
  · rw [hheld₂] at hf
    rw [hrefs₂]
    exact hroom sp hsp x hx f hf ht
  · rw [hheld₂]
    exact hnone _
  · rw [hheld₂] at hpresent
    exact honce hex sp hsp x hx (Option.isSome_iff_ne_none.2 hpresent)

theorem fork_spec (I : Inv G m role) (s : SpaceId) (hroom : NoWrap m s)
    (honce : G.exact → MetOnce m s) : ∃ role', Inv G (fork m s).1 role' := by
  unfold fork
  split
  · exact ⟨role, I⟩
  · rename_i sp hsp
    split
    · exact ⟨role, I⟩
    · rename_i c l1 m₁ hcreate
      obtain ⟨role₁, hstart⟩ := fork_start I hsp hcreate hroom honce
      obtain ⟨role₃, I₃, -⟩ :=
        forkAll_spec hstart.ne (forkPlan sp.vmas) _ role₁ hstart.inv hstart.parent
        hstart.child hstart.sharable
      rw [forkVmas_eq]
      generalize forkAll sp.ttbr0 l1 (forkPlan sp.vmas)
        (m₁.setSpace c (some { sp with ttbr0 := l1 })) = r at *
      obtain ⟨m₃, _ | _⟩ := r
      · obtain ⟨role₄, I₄, -⟩ := destroy_spec I₃ c
        exact ⟨role₄, I₄⟩
      · exact ⟨role₃, I₃⟩

end IndexOS.Reality
