import IndexOS.Reality.Sharing

/-!
# What faults, writes and changes of the regions keep

Here are the functions that work inside one address space: a fault, the two loops over faults, a
store of the program, and the two functions that change a range of regions.  Each keeps `Inv`, and
those that act for a process leave what the other address spaces see as it is (`Local`).

* `handleFault_spec` — a fault either maps the same pages as before or one fresh page more, and a
  page it has made writable is mapped nowhere else;
* `writeUser_spec` — `pr2_write_user` keeps `Inv`, and stays local as long as every page it writes
  is writable by its region or mapped by no other address space;
* `removeVmaRange_spec`, `mprotect_spec` — the loops over the pages of a range.
-/

set_option autoImplicit false

namespace IndexOS.Reality

open Function (update update_eq_self update_of_ne update_self)
open TreeDiagram (kPageSize add64 alignUp alignDown)

variable {q : Slot} {rest : List Nat} {p : SpaceId × Slot}

variable {G : Ground} {m m' m'' : Machine} {role role' : Nat → Role} {s : SpaceId}
  {i j k : Fin 512} {f g h : Nat} {w : Nat}

/-! ## Other address spaces -/

/-- The other address spaces see what they saw before. -/
structure Local (s : SpaceId) (m m' : Machine) : Prop where
  leaf_eq : ∀ t q, t ≠ s → leaf m' t q = leaf m t q
  mem_eq : ∀ t q f, t ≠ s → held m (t, q) = some f → m'.mem f = m.mem f
  spaces_eq : m'.spaces = m.spaces

theorem Local.refl (s : SpaceId) (m : Machine) : Local s m m :=
  ⟨fun _ _ _ => rfl, fun _ _ _ _ _ => rfl, rfl⟩

theorem Local.held_eq (hl : Local s m m') {t : SpaceId} (ht : t ≠ s) (q : Slot) :
    held m' (t, q) = held m (t, q) := by
  unfold held mapped
  rw [hl.leaf_eq t q ht]

theorem Local.trans (h₁ : Local s m m') (h₂ : Local s m' m'') : Local s m m'' where
  leaf_eq t q ht := (h₂.leaf_eq t q ht).trans (h₁.leaf_eq t q ht)
  mem_eq t q f ht hf := by
    rw [h₂.mem_eq t q f ht (by rw [h₁.held_eq ht]; exact hf), h₁.mem_eq t q f ht hf]
  spaces_eq := h₂.spaces_eq.trans h₁.spaces_eq

theorem Local.readByte_eq (hl : Local s m m') {t : SpaceId} (ht : t ≠ s) (va : Nat) :
    readByte m' t va = readByte m t va := by
  have hheld : mapped m' t (slotOf va) = mapped m t (slotOf va) := hl.held_eq ht (slotOf va)
  unfold readByte
  rw [hheld]
  cases hm : mapped m t (slotOf va) with
  | none => rfl
  | some f => rw [Option.map_some, Option.map_some, hl.mem_eq t (slotOf va) f ht hm]

theorem Grown.local (I : Inv G m role) (hg : Grown m m' role role') : Local s m m' where
  leaf_eq t q _ := hg.leaf_eq t q
  mem_eq _ q f _ hf := hg.data_eq f q (I.role_of_held hf)
  spaces_eq := hg.spaces_eq

/-- Writing one entry of an address space is local, when no page of data is written with it. -/
theorem Entered.local (I : Inv G m role) (E : Entered m m' (s, q) w)
    (hmem : ∀ f r, role f = .data r → m'.mem f = m.mem f) : Local s m m' where
  leaf_eq t r ht := by
    rw [E.leaf_eq, if_neg]
    intro heq
    rw [Prod.mk.injEq] at heq
    exact ht heq.1
  mem_eq _ r f _ hf := hmem f r (I.role_of_held hf)
  spaces_eq := E.spaces_eq

/-! ## Faults -/

/-- The place is the only one that maps its page. -/
def Sole (m : Machine) (p : SpaceId × Slot) : Prop :=
  ∀ f p', held m p = some f → held m p' = some f → p' = p

/-- What a fault at a place does to the pages that are mapped: nothing, or it maps a fresh one. -/
def Fresh (m m' : Machine) (p : SpaceId × Slot) : Prop :=
  held m' = held m ∨ ∃ g, (∀ p', held m p' ≠ some g) ∧ held m' = update (held m) p (some g)

/-- A place that is the only one stays so when other places get fresh pages. -/
theorem Fresh.sole (hfresh : Fresh m m' p) {r : SpaceId × Slot} (hsole : Sole m r) : Sole m' r := by
  rcases hfresh with heq | ⟨g, hg, heq⟩
  · intro f r' hr hr'
    rw [heq] at hr hr'
    exact hsole f r' hr hr'
  · intro f r' hr hr'
    rw [heq] at hr hr'
    by_cases hrp : r = p
    · subst hrp
      by_contra hne
      rw [update_self] at hr
      rw [update_of_ne hne, ← hr] at hr'
      exact hg r' hr'
    · rw [update_of_ne hrp] at hr
      by_cases hrp' : r' = p
      · subst hrp'
        rw [update_self, ← hr] at hr'
        exact absurd hr'.symm (hg r)
      · rw [update_of_ne hrp'] at hr'
        exact hsole f r' hr hr'

/-- What a fault that ends with `ok` leaves at its place; `canw` says that the region is
writable. -/
structure Resolved (G : Ground) (m m' : Machine) (p : SpaceId × Slot) (canw ok : Bool) : Prop where
  fresh : Fresh m m' p
  present : ok = true → ∃ f, held m' p = some f
  sole : ok = true → G.excl → canw = true → Sole m' p

/-- Every page the allocator hands out has a counter, when entries have to be exclusive. -/
def Counted (G : Ground) : Prop := G.excl → ∀ f ∈ G.boot.pool, Tracked f

theorem Inv.tracked (I : Inv G m role) (hc : Counted G) (hx : G.excl) (hf : role f = .data q) :
    Tracked f := by
  refine hc hx f ?_
  by_contra hout
  rw [(I.outside_iff f).2 hout] at hf
  cases hf

/-- A page whose counter is at most 1 is mapped at one place only. -/
theorem Inv.sole_of_refs (I : Inv G m role) (ht : Tracked f) (hle : m.refs f ≤ 1)
    (hp : held m p = some f)
    {p' : SpaceId × Slot} (hp' : held m p' = some f) : p' = p :=
  eq_of_holders_le_one (Nat.le_trans (I.ledger.counted f ht) hle) hp hp'

theorem sole_of_fresh (hg : ∀ p', held m p' ≠ some g) (heq : held m' = update (held m) p (some g)) :
    Sole m' p := by
  intro f p' hp hp'
  rw [heq] at hp hp'
  rw [update_self] at hp
  by_contra hne
  rw [update_of_ne hne, ← hp] at hp'
  exact hg p' hp'

theorem mem_setWord_of_busy (hh : role h = .low s i j) (hf : Busy role f) :
    (m.setWord h k w).mem f = m.mem f := by
  obtain ⟨q, hq⟩ := hf
  have hne : f ≠ h := by
    rintro rfl
    rw [hh] at hq
    cases hq
  exact if_neg hne

section
variable (I : Inv G m role) (hpool : m.pool = g :: rest)
include I hpool

/-- A page of data is not touched when another page is taken from the pool, filled and mapped. -/
theorem Inv.mem_draw (content : Page)
    (hh : role h = .low s i j) (hf : Busy role f) :
    (((m.draw g rest).setPage g content).setWord h k w).mem f = m.mem f := by
  obtain ⟨q, hq⟩ := hf
  have hfg : f ≠ g := by
    rintro rfl
    rw [I.head_free hpool] at hq
    cases hq
  have hfh : f ≠ h := by
    rintro rfl
    rw [hh] at hq
    cases hq
  simp [Machine.draw, Machine.setWord, Machine.setPage, hfg, hfh]

theorem Inv.not_held_head (p : SpaceId × Slot) :
    held m p ≠ some g :=
  I.ledger.not_held (not_busy_of_free (I.head_free hpool)) p

/-- A fresh page mapped at a place: the form both branches of a fault end in. -/
theorem Inv.resolved_fresh {prot : UInt8}
    (E : Entered m m' p (pageEntry g prot)) (canw : Bool) : Resolved G m m' p canw true := by
  have hsmall : g < 2 ^ 36 := I.shape.small g (by rw [I.head_free hpool]; simp)
  have hheld := E.held_eq
  rw [pageOf_pageEntry hsmall] at hheld
  have hnot := I.not_held_head hpool
  exact ⟨.inr ⟨g, hnot, hheld⟩, fun _ => ⟨g, by rw [hheld, update_self]⟩,
    fun _ _ _ => sole_of_fresh hnot hheld⟩

end

theorem resolve_spec (I : Inv G m role) (hc : Counted G) (hh : role h = .low s i j) (files : Files)
    (v : Vma) (pageVa : Nat) :
    ∃ role', Inv G (resolve files v pageVa m h k).1 role' ∧
      Local s m (resolve files v pageVa m h k).1 ∧
      Resolved G m (resolve files v pageVa m h k).1 (s, (i, j, k)) (canWrite v.prot)
        (resolve files v pageVa m h k).2 := by
  have hfail : ∃ role', Inv G m role' ∧ Local s m m ∧
      Resolved G m m (s, (i, j, k)) (canWrite v.prot) false :=
    ⟨role, I, Local.refl s m, .inl rfl, by simp, by simp⟩
  have hleaf : leaf m s (i, j, k) = m.mem h k := I.shape.leaf_low hh k
  unfold resolve
  simp only
  split
  · rename_i hlinks
    obtain ⟨f, prot, he, hf, hheld⟩ := I.held_of_links hh hlinks
    rw [he, frameOf_pageEntry (I.small hf)]
    split
    · -- The page is shared and the region writable: it is copied.
      rename_i hshared
      obtain ⟨hcanw, hrefs⟩ := hshared
      have htracked : Tracked f := by
        by_contra hnot
        rw [pageRefcount, if_neg hnot] at hrefs
        omega
      rw [pageRefcount, if_pos htracked] at hrefs
      unfold copyPage
      rcases allocPageZeroed_eq m with ⟨hnone, -⟩ | ⟨g, rest, hpool, hsome⟩
      · rw [hnone]
        exact hfail
      · rw [hsome]
        obtain ⟨I', E⟩ := I.swap hpool hh hheld htracked hrefs ((m.draw g rest).mem f) v.prot rfl
        refine ⟨_, I', E.local I ?_, I.resolved_fresh hpool E _⟩
        intro x r hx
        rw [← I.mem_draw (k := k) (w := pageEntry g v.prot) hpool ((m.draw g rest).mem f) hh
          ⟨r, hx⟩]
        simp only [Machine.setWord, Machine.setPage, pageRef_mem, pageUnref_mem]
    · -- The entry gets the protection of the region; if that is writable, nobody else maps the page.
      rename_i hshared
      have hsole : G.excl → canWrite v.prot = true → ∀ p, held m p = some f → p =
        (s, (i, j, k)) := by
        intro hx hcanw p hp
        have htracked := I.tracked hc hx hf
        refine I.sole_of_refs htracked ?_ hheld hp
        by_contra hgt
        refine hshared ⟨hcanw, ?_⟩
        rw [pageRefcount, if_pos htracked]
        omega
      obtain ⟨I', E⟩ := I.permit hh hheld v.prot hsole
      have hsame : held (m.setWord h k (pageEntry f v.prot)) = held m := by
        rw [E.held_eq, pageOf_pageEntry (I.small hf), ← hheld, update_eq_self]
      refine ⟨role, I', E.local I (fun x r hx => mem_setWord_of_busy hh ⟨r, hx⟩), .inl hsame,
        fun _ => ⟨f, by rw [hsame]; exact hheld⟩, fun _ hx hcanw => ?_⟩
      intro x p' hx' hp'
      rw [hsame] at hx' hp'
      rw [hheld] at hx'
      cases hx'
      exact hsole hx hcanw p' hp'
  · rename_i hlinks
    have hzero : m.mem h k = 0 := by
      rcases I.shape.lowEntry s i j k h hh with hzero | ⟨f, prot, he, -⟩
      · exact hzero
      · rw [he] at hlinks
        exact absurd (links_pageEntry f prot) hlinks
    have hnone : held m (s, (i, j, k)) = none := by
      unfold held mapped
      rw [hleaf, hzero]
      rfl
    unfold mapPage
    rcases allocPageZeroed_eq m with ⟨hfull, -⟩ | ⟨g, rest, hpool, hsome⟩
    · rw [hfull]
      exact hfail
    · rw [hsome]
      obtain ⟨I', E⟩ := I.put hpool hh hnone (freshPage files v pageVa) v.prot rfl
      refine ⟨_, I', E.local I ?_, I.resolved_fresh hpool E _⟩
      intro x r hx
      rw [pageRef_mem]
      exact I.mem_draw hpool (freshPage files v pageVa) hh ⟨r, hx⟩

/-- The region of an address, as a fault on it finds it, is writable. -/
def WritableRegion (m : Machine) (s : SpaceId) (va : Nat) : Bool :=
  ((m.spaces s).bind fun sp => findVma sp.vmas (alignDown va)).any fun v => canWrite v.prot

theorem slotOf_alignDown (va : Nat) : slotOf (alignDown va) = slotOf va := by
  have h1 : va / 4096 * 4096 / 2 ^ 30 = va / 2 ^ 30 := by omega
  have h2 : va / 4096 * 4096 / 2 ^ 21 = va / 2 ^ 21 := by omega
  have h3 : va / 4096 * 4096 / 2 ^ 12 = va / 2 ^ 12 := by omega
  unfold slotOf l1Index l2Index l3Index alignDown kPageSize
  rw [h1, h2, h3]

/-- **A fault.** -/
theorem handleFault_spec (I : Inv G m role) (hc : Counted G) (files : Files) (s : SpaceId)
    (far : Nat) : ∃ role', Inv G (handleFault files m s far).1 role' ∧
      Local s m (handleFault files m s far).1 ∧
      Resolved G m (handleFault files m s far).1 (s, slotOf far) (WritableRegion m s far)
        (handleFault files m s far).2 := by
  have hfail : ∀ canw, Resolved G m m (s, slotOf far) canw false :=
    fun _ => ⟨.inl rfl, by simp, by simp⟩
  unfold handleFault
  cases hsp : m.spaces s with
  | none => exact ⟨role, I, Local.refl s m, hfail _⟩
  | some sp =>
    simp only
    cases hv : findVma sp.vmas (alignDown far) with
    | none => exact ⟨role, I, Local.refl s m, hfail _⟩
    | some v =>
      have hcanw : WritableRegion m s far = canWrite v.prot := by
        simp [WritableRegion, hsp, hv]
      rw [hcanw]
      obtain ⟨role₁, I₁, hgrown, hlow⟩ := ensureL3_spec I (I.root hsp) (alignDown far)
      generalize ensureL3 m sp.ttbr0 (alignDown far) = r at *
      obtain ⟨m₁, _ | h⟩ := r
      · exact ⟨role₁, I₁, hgrown.local I, .inl hgrown.held_eq, by simp, by simp⟩
      · obtain ⟨role₂, I₂, hlocal, hres⟩ := resolve_spec I₁ hc
          (hlow h rfl).1 files v (alignDown far)
        have hslot : (l1Index (alignDown far), l2Index (alignDown far), l3Index (alignDown far)) =
            slotOf far := slotOf_alignDown far
        rw [hslot] at hres
        refine ⟨role₂, I₂, (hgrown.local I).trans hlocal, ?_, hres.present, hres.sole⟩
        have hfresh := hres.fresh
        unfold Fresh at hfresh
        rw [hgrown.held_eq] at hfresh
        exact hfresh

theorem prefaultPages_spec (hc : Counted G) (files : Files) (s : SpaceId) (n : Nat) :
    ∀ (page : Nat) (m : Machine) (role : Nat → Role), Inv G m role →
      ∃ role', Inv G (prefaultPages files s n page m).1 role' := by
  induction n with
  | zero => exact fun _ m role I => ⟨role, I⟩
  | succ n ih =>
    intro page m role I
    obtain ⟨role₁, I₁, -, -⟩ := handleFault_spec I hc files s page
    unfold prefaultPages
    generalize handleFault files m s page = r at *
    obtain ⟨m₁, _ | _⟩ := r
    · exact ⟨role₁, I₁⟩
    · exact ih _ m₁ role₁ I₁

section
variable (I : Inv G m role)
include I

theorem prefaultRange_spec (hc : Counted G) (files : Files) (s : SpaceId)
    (va len : Nat) : ∃ role', Inv G (prefaultRange files m s va len).1 role' := by
  unfold prefaultRange
  split
  · exact ⟨role, I⟩
  · exact prefaultPages_spec hc files s _ _ m role I

/-! ## Writing bytes -/

/-- A byte is written into a page of data: no table is touched. -/
theorem Inv.setByte (hf : role f = .data q) (off : Nat) (b : UInt8) :
    Inv G (m.setByte f off b) role ∧ (∀ t r, leaf (m.setByte f off b) t r = leaf m t r) ∧
      ∀ g, g ≠ f → (m.setByte f off b).mem g = m.mem g := by
  have hmem : ∀ g, g ≠ f → (m.setByte f off b).mem g = m.mem g := fun g hg => if_neg hg
  have hframe : Shape.SameFrame m (m.setByte f off b) := ⟨rfl, fun _ => rfl⟩
  have hfixed : ∀ g, (role g).Fixed → (m.setByte f off b).mem g = m.mem g := by
    intro g hg
    refine hmem g ?_
    rintro rfl
    exact hg.2 q hf
  have hleaf := I.shape.leaf_congr hframe hfixed
  refine ⟨⟨I.shape.congr hframe hfixed, I.pool_iff, by rw [held_congr hleaf]; exact I.ledger,
    I.outside_iff, fun g hg => ?_, I.kernelL1, fun hx => (I.excl hx).congr hleaf⟩, hleaf, hmem⟩
  rw [hfixed g (by rw [(I.outside_iff g).2 hg]; simp)]
  exact I.untouched g hg

/-- A byte written into a page that no other address space maps. -/
theorem Inv.setByte_local (hf : held m (s, q) = some f) (hsole : Sole m (s, q))
    (off : Nat) (b : UInt8) : Local s m (m.setByte f off b) := by
  obtain ⟨-, hleaf, hmem⟩ := I.setByte (I.role_of_held hf) off b
  refine ⟨fun t r _ => hleaf t r, ?_, rfl⟩
  intro t r x ht hx
  refine hmem x ?_
  rintro rfl
  have heq := hsole x (t, r) hf hx
  rw [Prod.mk.injEq] at heq
  exact ht heq.1

/-- **A store of the program** goes through a writable entry, which is the only one of its page. -/
theorem store_spec (s : SpaceId) (va : Nat) (b : UInt8) :
    (∃ role', Inv G (store m s va b) role') ∧ (G.excl → Local s m (store m s va b)) := by
  unfold store
  split
  · rename_i hw
    have hf : held m (s, slotOf va) = some (frameOf (leaf m s (slotOf va))) := by
      unfold held mapped
      rw [if_pos hw.1]
    refine ⟨⟨role, (I.setByte (I.role_of_held hf) _ b).1⟩, fun hx => I.setByte_local hf ?_ _ b⟩
    exact fun x p' hx' hp' => I.excl hx _ x p' hx' hw hp'
  · exact ⟨⟨role, I⟩, fun _ => Local.refl s m⟩

/-- The page of an address is found for the kernel to write to. -/
theorem userBytePtr_spec (hc : Counted G) (files : Files) (s : SpaceId) (va : Nat) :
    ∃ role', Inv G (userBytePtr files m s va).1 role' ∧ Local s m (userBytePtr files m s va).1 ∧
      Fresh m (userBytePtr files m s va).1 (s, slotOf va) ∧
      ∀ f, (userBytePtr files m s va).2 = some f →
        held (userBytePtr files m s va).1 (s, slotOf va) = some f ∧
        (G.excl → WritableRegion m s va = true → Sole (userBytePtr files m s va).1
          (s, slotOf va)) := by
  obtain ⟨role₁, I₁, hlocal₁, hres⟩ := handleFault_spec I hc files s va
  unfold userBytePtr
  generalize handleFault files m s va = r at *
  obtain ⟨m₁, ok⟩ := r
  have hspaces : m₁.spaces = m.spaces := hlocal₁.spaces_eq
  rcases ok with _ | _
  · exact ⟨role₁, I₁, hlocal₁, hres.fresh, fun f hf => by cases hf⟩
  · cases hsp : m.spaces s with
    | none => exact ⟨role₁, I₁, hlocal₁, hres.fresh, fun f hf => by cases hf⟩
    | some sp =>
      simp only at *
      obtain ⟨role₂, I₂, hgrown, hlow⟩ := ensureL3_spec I₁ (I₁.root (hspaces ▸ hsp)) (alignDown va)
      have hfresh : Fresh m (ensureL3 m₁ sp.ttbr0 (alignDown va)).1 (s, slotOf va) := by
        have hfresh := hres.fresh
        unfold Fresh at ⊢
        rw [hgrown.held_eq]
        exact hfresh
      generalize ensureL3 m₁ sp.ttbr0 (alignDown va) = r at *
      obtain ⟨m₂, _ | h⟩ := r
      · exact ⟨role₂, I₂, hlocal₁.trans (hgrown.local I₁), hfresh, fun f hf => by cases hf⟩
      · simp only at *
        have hlocal := hlocal₁.trans (hgrown.local I₁)
        have hslot : (l1Index (alignDown va), l2Index (alignDown va), l3Index (alignDown va)) =
            slotOf va := slotOf_alignDown va
        have hleaf := I₂.shape.leaf_low (hlow h rfl).1 (l3Index (alignDown va))
        rw [hslot] at hleaf
        rw [← hleaf]
        split
        · rename_i hlinks
          refine ⟨role₂, I₂, hlocal, hfresh, fun f hf => ?_⟩
          cases hf
          refine ⟨if_pos hlinks, fun hx hcanw => ?_⟩
          have hsole := hres.sole rfl hx hcanw
          unfold Sole at ⊢
          rw [hgrown.held_eq]
          exact hsole
        · exact ⟨role₂, I₂, hlocal, hfresh, fun f hf => by cases hf⟩

end

/-- The address may be written for the process: its region is writable, or no other address space
maps the page. -/
def MayWrite (m : Machine) (s : SpaceId) (va : Nat) : Prop :=
  WritableRegion m s va = true ∨ Sole m (s, slotOf va)

/-- The addresses `pr2_write_user` visits. -/
def byteAddrs : Nat → Nat → List Nat
  | 0, _ => []
  | n + 1, va => va :: byteAddrs n (add64 va 1)

theorem writeUser_spec (hc : Counted G) (files : Files) (s : SpaceId) (bytes : List UInt8) :
    ∀ (va : Nat) (m : Machine) (role : Nat → Role), Inv G m role →
      (∃ role', Inv G (writeUser files s va bytes m).1 role') ∧
      (G.excl → (∀ x ∈ byteAddrs bytes.length va, MayWrite m s x) →
        Local s m (writeUser files s va bytes m).1) := by
  induction bytes with
  | nil => exact fun _ m role I => ⟨⟨role, I⟩, fun _ _ => Local.refl s m⟩
  | cons b bs ih =>
    intro va m role I
    obtain ⟨role₁, I₁, hlocal₁, hfresh, hptr⟩ := userBytePtr_spec I hc files s va
    unfold writeUser
    generalize userBytePtr files m s va = r at *
    obtain ⟨m₁, _ | f⟩ := r
    · exact ⟨⟨role₁, I₁⟩, fun _ _ => hlocal₁⟩
    · obtain ⟨hheld, hsole⟩ := hptr f rfl
      obtain ⟨I₂, hleaf, -⟩ := I₁.setByte (I₁.role_of_held hheld) (va % kPageSize) b
      obtain ⟨hinv, hloc⟩ := ih (add64 va 1) _ role₁ I₂
      refine ⟨hinv, fun hx hmay => ?_⟩
      have hhere : Sole m₁ (s, slotOf va) :=
        (hmay va (List.mem_cons_self ..)).elim (hsole hx) hfresh.sole
      have hlocal₂ := I₁.setByte_local hheld hhere (va % kPageSize) b
      refine (hlocal₁.trans hlocal₂).trans (hloc hx fun x hx' => ?_)
      -- What allowed the write before the loop allows it still: the regions are the same, and a
      -- page that only this address space mapped has been replaced by a fresh one at most.
      rcases hmay x (List.mem_cons_of_mem _ hx') with hcanw | hsolex
      · left
        have hspaces : (m₁.setByte f (va % kPageSize) b).spaces = m.spaces := hlocal₁.spaces_eq
        unfold WritableRegion at ⊢
        rw [hspaces]
        exact hcanw
      · right
        have hsole₁ := hfresh.sole hsolex
        unfold Sole at ⊢
        rw [held_congr hleaf]
        exact hsole₁

/-! ## Regions and ranges -/

/-- What is kept of an address space with its L1 table may change. -/
theorem Inv.setSpace (I : Inv G m role) {sp : Space} (hsp : m.spaces s = some sp) (sp' : Space)
    (hroot : sp'.ttbr0 = sp.ttbr0) :
    Inv G (m.setSpace s (some sp')) role ∧
      ∀ t q, leaf (m.setSpace s (some sp')) t q = leaf m t q := by
  have hframe : Shape.SameFrame m (m.setSpace s (some sp')) := by
    refine ⟨rfl, fun t => ?_⟩
    rcases eq_or_ne t s with rfl | ht
    · simp [Machine.setSpace, hsp, hroot]
    · simp [Machine.setSpace, ht]
  have hleaf := I.shape.leaf_congr hframe (fun _ _ => rfl)
  refine ⟨⟨I.shape.congr hframe (fun _ _ => rfl),
    I.pool_iff, by rw [held_congr hleaf]; exact I.ledger,
    I.outside_iff, I.untouched, I.kernelL1, fun hx => (I.excl hx).congr hleaf⟩, hleaf⟩

@[simp] theorem setSpace_spaces_self (m : Machine) (s : SpaceId) (sp : Option Space) :
    (m.setSpace s sp).spaces s = sp := if_pos rfl

theorem addRegion_spec (I : Inv G m role) (s : SpaceId) (add : List Vma → Option (List Vma)) :
    ∃ role', Inv G (addRegion m s add) role' := by
  unfold addRegion
  split
  · exact ⟨role, I⟩
  · rename_i sp hsp
    split
    · exact ⟨role, I⟩
    · rename_i vmas _
      exact ⟨role, (I.setSpace hsp { sp with vmas := vmas } rfl).1⟩

/-- The pages a loop visits. -/
def pagesFrom : Nat → Nat → List Nat
  | 0, _ => []
  | n + 1, va => va :: pagesFrom n (va + kPageSize)

/-- A loop over pages keeps what its body keeps. -/
theorem overPages_induct (body : Machine → Nat → Machine) (P : Machine → Prop) (n : Nat) :
    ∀ (va : Nat) (m : Machine), P m →
      (∀ x ∈ pagesFrom n va, ∀ m, P m → P (body m x)) → P (overPages body n va m) := by
  induction n with
  | zero => exact fun _ _ hm _ => hm
  | succ n ih =>
    intro va m hm hbody
    exact ih _ _ (hbody va (List.mem_cons_self ..) m hm)
      (fun x hx => hbody x (List.mem_cons_of_mem _ hx))

/-- The address space `s` has the L1 table `l1`, in a machine that keeps the invariant. -/
structure Rooted (G : Ground) (s : SpaceId) (l1 : Nat) (m : Machine) : Prop where
  inv : ∃ role, Inv G m role
  root : ∃ sp, m.spaces s = some sp ∧ sp.ttbr0 = l1

theorem removePage_spec {l1 : Nat} (hm : Rooted G s l1 m) (va : Nat) :
    Rooted G s l1 (removePage l1 m va) := by
  obtain ⟨⟨role, I⟩, sp, hsp, rfl⟩ := hm
  unfold removePage
  split
  · obtain ⟨role₁, I₁, hgrown, hlow⟩ := ensureL3_spec I (I.root hsp) va
    generalize ensureL3 m sp.ttbr0 va = r at *
    obtain ⟨m₁, _ | h⟩ := r
    · exact ⟨⟨role₁, I₁⟩, sp, hgrown.spaces_eq ▸ hsp, rfl⟩
    · obtain ⟨role₂, I₂, E⟩ := I₁.clear (hlow h rfl).1 (l3Index va)
      exact ⟨⟨role₂, I₂⟩, sp, (E.spaces_eq.trans hgrown.spaces_eq) ▸ hsp, rfl⟩
  · exact ⟨⟨role, I⟩, sp, hsp, rfl⟩

theorem removeVmaRange_spec (I : Inv G m role) (s : SpaceId) (lo hi : Nat) :
    ∃ role', Inv G (removeVmaRange m s lo hi) role' := by
  unfold removeVmaRange
  split
  · exact ⟨role, I⟩
  · rename_i sp hsp
    split
    · exact ⟨role, I⟩
    · obtain ⟨I', -⟩ := I.setSpace hsp
        { sp with vmas := removeVmas sp.vmas (alignDown lo) (alignUp hi) } rfl
      have hroot : Rooted G s sp.ttbr0 (m.setSpace s
          (some { sp with vmas := removeVmas sp.vmas (alignDown lo) (alignUp hi) })) :=
        ⟨⟨role, I'⟩, _, setSpace_spaces_self .., rfl⟩
      exact (overPages_induct _ (Rooted G s sp.ttbr0) _ _ _ hroot
        (fun va _ m hm => removePage_spec hm va)).inv

/-- The body of `pr2_mprotect` gives an entry a new protection, without a look at who else maps the
page. -/
theorem protectPage_spec {l1 : Nat} (hm : Rooted G s l1 m) (prot : UInt8) (va : Nat)
    (hsafe : G.excl → canWrite prot = true → Sole m (s, slotOf va)) :
    Rooted G s l1 (protectPage prot l1 m va) ∧ held (protectPage prot l1 m va) = held m := by
  obtain ⟨⟨role, I⟩, sp, hsp, rfl⟩ := hm
  unfold protectPage
  simp only
  split
  · rename_i hlinks
    obtain ⟨role₁, I₁, hgrown, hlow⟩ := ensureL3_spec I (I.root hsp) va
    generalize ensureL3 m sp.ttbr0 va = r at *
    obtain ⟨m₁, _ | h⟩ := r
    · exact ⟨⟨⟨role₁, I₁⟩, sp, hgrown.spaces_eq ▸ hsp, rfl⟩, hgrown.held_eq⟩
    · obtain ⟨hh, hkernel⟩ := hlow h rfl
      have hwalk := lookupL3_eq_leaf hsp hkernel
      rw [hwalk] at hlinks ⊢
      have hheld : held m₁ (s, slotOf va) = some (frameOf (leaf m s (slotOf va))) := by
        rw [hgrown.held_eq]
        exact if_pos hlinks
      obtain ⟨I₂, E⟩ := I₁.permit hh hheld prot (fun hx hcanw p hp => by
        rw [hgrown.held_eq] at hp hheld
        exact hsafe hx hcanw _ p hheld hp)
      refine ⟨⟨⟨role₁, I₂⟩, sp, (E.spaces_eq.trans hgrown.spaces_eq) ▸ hsp, rfl⟩, ?_⟩
      have hsmall := I₁.small (I₁.role_of_held hheld)
      rw [E.held_eq, pageOf_pageEntry hsmall, ← hheld]
      exact (update_eq_self _ _).trans hgrown.held_eq
  · exact ⟨⟨⟨role, I⟩, sp, hsp, rfl⟩, rfl⟩

theorem mprotect_spec (I : Inv G m role) (s : SpaceId) (va len : Nat) (prot : UInt8)
    (hsafe : G.excl → canWrite prot = true → ∀ x ∈
      pagesFrom ((alignUp (add64 va len) - alignDown va) / kPageSize) (alignDown va),
        Sole m (s, slotOf x)) :
    ∃ role', Inv G (mprotect m s va len prot) role' := by
  unfold mprotect
  split
  · exact ⟨role, I⟩
  · rename_i sp hsp
    split
    · exact ⟨role, I⟩
    · obtain ⟨I', hleaf⟩ := I.setSpace hsp
        { sp with vmas := protectVmas sp.vmas (alignDown va) (alignUp (add64 va len)) prot } rfl
      have hroot : Rooted G s sp.ttbr0 (m.setSpace s (some { sp with
          vmas := protectVmas sp.vmas (alignDown va) (alignUp (add64 va len)) prot })) :=
        ⟨⟨role, I'⟩, _, setSpace_spaces_self .., rfl⟩
      refine (overPages_induct _ (fun m' => Rooted G s sp.ttbr0 m' ∧ held m' = held m) _ _ _
        ⟨hroot, held_congr hleaf⟩ (fun x hx m' hm => ?_)).1.inv
      obtain ⟨hroot, hheld⟩ := hm
      obtain ⟨hroot', hheld'⟩ := protectPage_spec hroot prot x (fun hX hcanw => by
        unfold Sole
        rw [hheld]
        exact hsafe hX hcanw x hx)
      exact ⟨hroot', hheld'.trans hheld⟩

end IndexOS.Reality
