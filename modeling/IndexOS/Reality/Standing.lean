import IndexOS.Reality.Fork

/-!
# Pages that stay where they are

Which steps leave a page of an address space where it is.  The futex code names a word by its
physical address, so it depends on this.

* `Keeps` — every page that is mapped stays mapped at its place;
* `Copies` — a fault at the address makes a copy of the page: the region can be written and the page
  is shared;
* one lemma for each step; a fault keeps all pages but its own, and that too unless it copies.
-/

set_option autoImplicit false

namespace IndexOS.Reality

open TreeDiagram (kPageSize add64 alignUp alignDown)

variable {G : Ground} {m m' m'' : Machine} {role : Nat → Role} {s c : SpaceId} {i j k : Fin 512}
  {f h : Nat}

/-- Every page that is mapped stays mapped at its place. -/
def Keeps (m m' : Machine) : Prop := ∀ p f, held m p = some f → held m' p = some f

theorem Keeps.refl (m : Machine) : Keeps m m := fun _ _ h => h

theorem Keeps.of_held_eq (h : held m' = held m) : Keeps m m' := fun p f hf => by rw [h]; exact hf

/-- The fault makes a copy of the page at the address. -/
def Copies (m : Machine) (s : SpaceId) (va : Nat) : Prop :=
  WritableRegion m s va = true ∧ ∃ f, held m (s, slotOf va) = some f ∧ 1 < pageRefcount m f

/-! ## Faults -/

/-- An entry that is present and is not copied keeps its page. -/
theorem resolve_keeps (I : Inv G m role) (hx : ¬ G.excl) (hh : role h = .low s i j) (files : Files)
    (v : Vma) (pageVa : Nat) (hf : held m (s, (i, j, k)) = some f)
    (hsingle : ¬ (canWrite v.prot = true ∧ 1 < pageRefcount m f)) :
    held (resolve files v pageVa m h k).1 = held m := by
  have hleaf : leaf m s (i, j, k) = m.mem h k := I.shape.leaf_low hh k
  have hf' : (if Links (m.mem h k) then some (frameOf (m.mem h k)) else none) = some f := by
    rw [← hleaf]
    exact hf
  have hlinks : Links (m.mem h k) := by
    by_contra hno
    rw [if_neg hno] at hf'
    cases hf'
  rw [if_pos hlinks, Option.some.injEq] at hf'
  obtain ⟨-, E⟩ := I.permit hh hf v.prot (fun h => absurd h hx)
  unfold resolve
  rw [if_pos hlinks, hf', if_neg hsingle, E.held_eq, pageOf_pageEntry (I.small (I.role_of_held hf)),
    ← hf, Function.update_eq_self]

section

variable (I : Inv G m role) (hc : Counted G) (hx : ¬ G.excl) (files : Files) (s : SpaceId)
  (va : Nat)
  {p : SpaceId × Slot} (hf : held m p = some f) (hp : p ≠ (s, slotOf va) ∨ ¬ Copies m s va)
include I hc hx hf hp

/-- A fault keeps every page, its own only if it makes no copy. -/
theorem handleFault_keeps : held (handleFault files m s va).1 p = some f := by
  by_cases hps : p = (s, slotOf va)
  · have hcopies := hp.resolve_left (fun hne => hne hps)
    subst hps
    unfold handleFault
    cases hsp : m.spaces s with
    | none => exact hf
    | some sp =>
      simp only
      cases hv : findVma sp.vmas (alignDown va) with
      | none => exact hf
      | some v =>
        have hcanw : WritableRegion m s va = canWrite v.prot := by simp [WritableRegion, hsp, hv]
        obtain ⟨role₁, I₁, hgrown, hlow⟩ := ensureL3_spec I (I.root hsp) (alignDown va)
        generalize ensureL3 m sp.ttbr0 (alignDown va) = r at *
        obtain ⟨m₁, _ | h⟩ := r
        · rw [hgrown.held_eq]
          exact hf
        · have hslot : (l1Index (alignDown va), l2Index (alignDown va), l3Index (alignDown va)) =
              slotOf va := slotOf_alignDown va
          have hf₁ : held m₁ (s, (l1Index (alignDown va), l2Index (alignDown va),
              l3Index (alignDown va))) = some f := by
            rw [hslot, hgrown.held_eq]
            exact hf
          rw [resolve_keeps I₁ hx (hlow h rfl).1 files v (alignDown va) hf₁, ← hslot]
          · exact hf₁
          · rintro ⟨hw, hrefs⟩
            refine hcopies ⟨hcanw.trans hw, f, hf, ?_⟩
            rw [pageRefcount, ← hgrown.refs_eq]
            exact hrefs
  · obtain ⟨-, -, -, hres⟩ := handleFault_spec I hc files s va
    rcases hres.fresh with heq | ⟨g, -, heq⟩
    · rw [heq]
      exact hf
    · rw [heq, Function.update_of_ne hps]
      exact hf

/-- The kernel's own access to a byte of the process keeps what a fault there keeps. -/
theorem userBytePtr_keeps : held (userBytePtr files m s va).1 p = some f := by
  have hkeeps := handleFault_keeps I hc hx files s va hf hp
  obtain ⟨role₁, I₁, hlocal, -⟩ := handleFault_spec I hc files s va
  unfold userBytePtr
  generalize handleFault files m s va = r at *
  obtain ⟨m₁, _ | _⟩ := r
  · exact hkeeps
  · cases hsp : m.spaces s with
    | none => exact hkeeps
    | some sp =>
      obtain ⟨role₂, I₂, hgrown, -⟩ :=
        ensureL3_spec I₁ (I₁.root (hlocal.spaces_eq ▸ hsp)) (alignDown va)
      simp only at *
      generalize ensureL3 m₁ sp.ttbr0 (alignDown va) = r at *
      obtain ⟨m₂, _ | l3⟩ := r
      · rw [hgrown.held_eq]
        exact hkeeps
      · simp only
        split <;> (rw [hgrown.held_eq]; exact hkeeps)

/-- `pr2_write_user` of one byte -/
theorem writeByte_keeps (b : UInt8) : held (writeUser files s va [b] m).1 p = some f := by
  have hkeeps := userBytePtr_keeps I hc hx files s va hf hp
  obtain ⟨role₁, I₁, -, -, hptr⟩ := userBytePtr_spec I hc files s va
  unfold writeUser
  generalize userBytePtr files m s va = r at *
  obtain ⟨m₁, _ | g⟩ := r
  · exact hkeeps
  · obtain ⟨-, hleaf, -⟩ := I₁.setByte (I₁.role_of_held (hptr g rfl).1) (va % kPageSize) b
    simp only [writeUser]
    rw [held_congr hleaf]
    exact hkeeps

end

/-! ## Stores -/

variable (I : Inv G m role)
include I

variable (s : SpaceId)

theorem store_keeps (va : Nat) (b : UInt8) : Keeps m (store m s va b) := by
  unfold store
  split
  next hw =>
    have hf : held m (s, slotOf va) = some (frameOf (leaf m s (slotOf va))) := by
      unfold held mapped
      rw [if_pos hw.1]
    obtain ⟨-, hleaf, -⟩ := I.setByte (I.role_of_held hf) (va % kPageSize) b
    exact Keeps.of_held_eq (held_congr hleaf)
  · exact Keeps.refl m

/-! ## Address spaces -/

theorem create_keeps : Keeps m (step m .create) := by
  unfold step
  cases hcreate : createAddrSpace m with
  | none => exact Keeps.refl m
  | some r =>
    obtain ⟨-, -, hcreated⟩ := createAddrSpace_spec I hcreate
    exact Keeps.of_held_eq (held_congr hcreated.leaf_eq)

theorem addRegion_keeps (add : List Vma → Option (List Vma)) :
    Keeps m (addRegion m s add) := by
  unfold addRegion
  cases hsp : m.spaces s with
  | none => exact Keeps.refl m
  | some sp =>
    simp only
    cases add sp.vmas with
    | none => exact Keeps.refl m
    | some vmas =>
      obtain ⟨-, hleaf⟩ := I.setSpace hsp { sp with vmas := vmas } rfl
      exact Keeps.of_held_eq (held_congr hleaf)

/-- Tearing an address space down keeps the pages of the others. -/
theorem destroy_keeps {p : SpaceId × Slot} (hp : p.1 ≠ s) :
    held (destroy m s) p = held m p := by
  unfold destroy
  cases hsp : m.spaces s with
  | none => rfl
  | some sp =>
    obtain ⟨roleC, heldC, T⟩ := releaseAll_torn I hsp
    simp only
    generalize freePage ((List.finRange 512).foldl (releaseL2 sp.ttbr0) m) sp.ttbr0 = cur at *
    have hspaces : (cur.setSpace s none).spaces p.1 = m.spaces p.1 := by
      rw [← T.spaces_eq]
      exact if_neg hp
    have hmem : (cur.setSpace s none).mem = m.mem := T.mem_eq
    have hkernel : (cur.setSpace s none).kernelL1 = m.kernelL1 := T.kernelL1_eq
    have hleaf : leaf (cur.setSpace s none) p.1 p.2 = leaf m p.1 p.2 := by
      simp only [leaf, Own, hspaces, hmem, hkernel]
    unfold held mapped
    rw [hleaf]

/-! ## Fork -/

theorem fork_keeps (hroom : NoWrap m s) (honce : G.exact → MetOnce m s) :
    Keeps m (fork m s).1 := by
  unfold fork
  split
  · exact Keeps.refl m
  next sp hsp =>
    split
    · exact Keeps.refl m
    next c l1 m₁ hcreate =>
      obtain ⟨role₁, hstart⟩ := fork_start I hsp hcreate hroom honce
      obtain ⟨role₃, I₃, hkeeps⟩ := forkAll_spec hstart.ne (forkPlan sp.vmas) _ role₁ hstart.inv
        hstart.parent hstart.child hstart.sharable
      rw [hstart.held_eq] at hkeeps
      have hother : ∀ p f, held m p = some f → p.1 ≠ c := by
        rintro ⟨t, q⟩ f hf rfl
        rw [hstart.was q] at hf
        cases hf
      rw [forkVmas_eq]
      generalize forkAll sp.ttbr0 l1 (forkPlan sp.vmas)
        (m₁.setSpace c (some { sp with ttbr0 := l1 })) = r at *
      obtain ⟨m₃, _ | _⟩ := r
      · intro p f hf
        rw [destroy_keeps I₃ c (hother p f hf), hkeeps p (hother p f hf)]
        exact hf
      · intro p f hf
        rw [hkeeps p (hother p f hf)]
        exact hf

end IndexOS.Reality
