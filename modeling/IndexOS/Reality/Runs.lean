import IndexOS.Reality.Fork

/-!
# Runs from boot

A run starts when there is no address space yet: no page is counted, and the allocator has the pages
it has.  The pages of the kernel's own tables are not among them.  Each step keeps the invariant of
`IndexOS.Reality.Sharing`; what it needs for that is `StepOk`, which asks something only of
`pr2_fork` and, where entries have to be exclusive, of `pr2_mprotect`.
-/

set_option autoImplicit false

namespace IndexOS.Reality

open TreeDiagram (kPageSize add64 alignUp alignDown)

/-- The kernel's L1 table and the tables that can be reached from it. -/
def KernelTable (m : Machine) (f : Nat) : Prop :=
  f = m.kernelL1 ∨ ∃ i, Links (m.mem m.kernelL1 i) ∧ (f = frameOf (m.mem m.kernelL1 i) ∨
    ∃ j, Links (m.mem (frameOf (m.mem m.kernelL1 i)) j) ∧
      f = frameOf (m.mem (frameOf (m.mem m.kernelL1 i)) j))

/-- The machine before the first address space.  The pages of the allocator have addresses of 39
bits, for `alloc_page_zeroed` cuts the others off, other than 0, which it would take for a
failure. -/
structure Booted (m : Machine) : Prop where
  spaces : ∀ s, m.spaces s = none
  refs : ∀ f, m.refs f = 0
  nodup : m.pool.Nodup
  range : ∀ f ∈ m.pool, 0 < f ∧ f < 2 ^ 27
  kernel : ∀ f, KernelTable m f → f ∉ m.pool

/-- The tables of an address space that are its own. -/
def TableOf (m : Machine) (s : SpaceId) (f : Nat) : Prop :=
  ∃ sp, m.spaces s = some sp ∧ (f = sp.ttbr0 ∨ ∃ i, Own m sp.ttbr0 i ∧
    (f = frameOf (m.mem sp.ttbr0 i) ∨
      ∃ j, Links (m.mem (frameOf (m.mem sp.ttbr0 i)) j) ∧
        f = frameOf (m.mem (frameOf (m.mem sp.ttbr0 i)) j)))

variable {G : Ground} {m : Machine} {role : Nat → Role} {s : SpaceId} {f : Nat}
  {cond : Machine → Op → Prop}

theorem leaf_of_no_space (h : m.spaces s = none) (q : Slot) : leaf m s q = 0 := by
  unfold leaf
  rw [h]

/-- At the start every page of the allocator is free and no other page matters. -/
theorem Booted.inv (hboot : Booted G.boot) : ∃ role, Inv G G.boot role := by
  have hnone : ∀ p, held G.boot p = none := by
    intro p
    unfold held mapped
    rw [leaf_of_no_space (hboot.spaces p.1)]
    rfl
  refine ⟨fun f => if f ∈ G.boot.pool then .free else .outside,
    ⟨?_, ?_, ?_, ?_, ?_, ?_, ?_, ?_, ?_⟩, ?_, ?_, ?_, fun _ _ => rfl, rfl, ?_⟩
  · intro s f
    rw [hboot.spaces s]
    split <;> simp
  · intro s f i hf
    split at hf <;> cases hf
  · intro s i g hg
    split at hg <;> cases hg
  · intro s i j g hg
    split at hg <;> cases hg
  · intro s i j h hh
    split at hh <;> cases hh
  · intro s i j k h hh
    split at hh <;> cases hh
  · intro f hf
    split at hf
    · rename_i hmem
      exact (hboot.range f hmem).2.trans (by decide)
    · exact absurd rfl hf
  · exact if_neg (hboot.kernel _ (.inl rfl))
  · intro i hi
    exact if_neg (hboot.kernel _ (.inr ⟨i, hi, .inl rfl⟩))
  · intro f
    split <;> simp [*]
  · have hidle : ∀ f, ¬ Busy (fun f => if f ∈ G.boot.pool then Role.free else .outside) f := by
      rintro f ⟨q, hq⟩
      simp only at hq
      split at hq <;> cases hq
    refine ⟨hboot.nodup, fun f _ => hidle f, fun p f hp => ?_, fun f _ _ => hboot.refs f,
      fun f _ hb => absurd hb (hidle f), fun f _ => ?_, fun _ f _ => ?_⟩
    · rw [hnone] at hp
      cases hp
    · rw [holders_eq_zero (fun p => by rw [hnone]; simp)]
      exact Nat.zero_le _
    · rw [hboot.refs]
      exact Nat.zero_le _
  · intro f
    split <;> simp [*]
  · intro _ p f p' hp
    rw [hnone] at hp
    cases hp

/-- A table of an address space has the role of one. -/
theorem Inv.role_of_table (I : Inv G m role) (hf : TableOf m s f) : (role f).Of s := by
  obtain ⟨sp, hsp, hf⟩ := hf
  have hroot := I.root hsp
  rcases hf with rfl | ⟨i, hown, hf⟩
  · exact .inl hroot
  · rcases I.shape.rootEntry s _ i hroot with he | ⟨g, he, hg⟩
    · exact absurd hown (Shape.not_own_of_inherited he)
    · rw [he, I.shape.frame_tableEntry (by rw [hg]; simp)] at hf
      rcases hf with rfl | ⟨j, hlinks, rfl⟩
      · exact .inr (.inl ⟨i, hg⟩)
      · rcases I.shape.midEntry s i j g hg with hzero | ⟨h, hhe, hh⟩
        · rw [hzero] at hlinks
          exact absurd hlinks not_links_zero
        · rw [hhe, I.shape.frame_tableEntry (by rw [hh]; simp)]
          exact .inr (.inr ⟨i, j, hh⟩)

theorem Role.Of.unique {r : Role} {s t : SpaceId} (hs : r.Of s) (ht : r.Of t) : s = t := by
  rcases hs with rfl | ⟨i, rfl⟩ | ⟨i, j, rfl⟩ <;> rcases ht with h | ⟨i', h⟩ | ⟨i', j', h⟩ <;>
    cases h <;> rfl

/-- The role of a table is that of a table that can be reached. -/
theorem Inv.table_of_role (I : Inv G m role) (hf : (role f).Of s) : TableOf m s f := by
  rcases hf with h | ⟨i, h⟩ | ⟨i, j, h⟩
  · obtain ⟨sp, hsp, rfl⟩ := (I.shape.root_iff s f).1 h
    exact ⟨sp, hsp, .inl rfl⟩
  · obtain ⟨r, hr, hre⟩ := I.shape.midParent s i f h
    obtain ⟨sp, hsp, rfl⟩ := (I.shape.root_iff s r).1 hr
    refine ⟨sp, hsp, .inr ⟨i, I.shape.own_of_mid hre h, .inl ?_⟩⟩
    rw [hre, I.shape.frame_tableEntry (by rw [h]; simp)]
  · obtain ⟨g, hg, hge⟩ := I.shape.lowParent s i j f h
    obtain ⟨r, hr, hre⟩ := I.shape.midParent s i g hg
    obtain ⟨sp, hsp, rfl⟩ := (I.shape.root_iff s r).1 hr
    refine ⟨sp, hsp, .inr ⟨i, I.shape.own_of_mid hre hg, .inr ⟨j, ?_⟩⟩⟩
    rw [hre, I.shape.frame_tableEntry (by rw [hg]; simp), hge]
    exact ⟨links_tableEntry f, (I.shape.frame_tableEntry (by rw [h]; simp)).symm⟩

/-! ## Steps -/

/-- What a step needs to keep the invariant. -/
def StepOk (G : Ground) (m : Machine) : Op → Prop
  | .fork s => NoWrap m s ∧ (G.exact → MetOnce m s)
  | .mprotect s va len prot => G.excl → canWrite prot = true →
      ∀ x ∈ pagesFrom ((alignUp (add64 va len) - alignDown va) / kPageSize) (alignDown va),
        Sole m (s, slotOf x)
  | _ => True

/-- **One step.** -/
theorem step_inv (I : Inv G m role) (hc : Counted G) (op : Op) (hok : StepOk G m op) :
    ∃ role', Inv G (step m op) role' := by
  cases op with
  | create =>
    unfold step
    cases hcreate : createAddrSpace m with
    | none => exact ⟨role, I⟩
    | some r =>
      obtain ⟨role', I', -⟩ := createAddrSpace_spec I hcreate
      exact ⟨role', I'⟩
  | addVma s start fin prot kind fileSrc fileOff fileSize segVaddr filePath =>
    unfold step
    exact addRegion_spec I s _
  | handleFault files s far =>
    obtain ⟨role', I', -⟩ := handleFault_spec I hc files s far
    exact ⟨role', I'⟩
  | prefaultRange files s va len => exact prefaultRange_spec I hc files s va len
  | writeUser files s va bytes => exact (writeUser_spec hc files s bytes va m role I).1
  | fork s => exact fork_spec I s hok.1 hok.2
  | mprotect s va len prot => exact mprotect_spec I s va len prot hok
  | removeVmaRange s lo hi => exact removeVmaRange_spec I s lo hi
  | destroy s =>
    obtain ⟨role', I', -⟩ := destroy_spec I s
    exact ⟨role', I'⟩
  | store s va b => exact (store_spec I s va b).1

theorem run_append (m : Machine) (ops ops' : List Op) :
    run m (ops ++ ops') = run (run m ops) ops' :=
  Traces.run_append ..

theorem run_cons (m : Machine) (op : Op) (ops : List Op) :
    run m (op :: ops) = run (step m op) ops := rfl

/-- Every step of a run meets a condition in the machine it is taken from. -/
abbrev RunMeets : (Machine → Op → Prop) → Machine → List Op → Prop := Traces.EachStep step

theorem RunMeets.append {ops ops' : List Op} :
    ∀ {m : Machine}, RunMeets cond m (ops ++ ops') ↔
      RunMeets cond m ops ∧ RunMeets cond (run m ops) ops' := by
  induction ops with
  | nil => exact fun {m} => ⟨fun h => ⟨trivial, h⟩, fun h => h.2⟩
  | cons op ops ih =>
    intro m
    show (cond m op ∧ RunMeets cond (step m op) (ops ++ ops')) ↔
      (cond m op ∧ RunMeets cond (step m op) ops) ∧ RunMeets cond (run (step m op) ops) ops'
    rw [ih, and_assoc]

/-- **Runs.**  A condition that lets every step keep the invariant lets every run keep it. -/
theorem run_inv (hc : Counted G)
    (hcond : ∀ m role op, Inv G m role → cond m op → StepOk G m op) {ops : List Op} {m : Machine}
    (hm : ∃ role, Inv G m role) (hmeets : RunMeets cond m ops) :
    ∃ role, Inv G (run m ops) role := by
  refine Traces.run_of_invariant (I := fun m => ∃ role, Inv G m role) ?_ hm hmeets
  rintro m op ⟨role, I⟩ hop
  exact step_inv I hc op (hcond m role op I hop)

end IndexOS.Reality
