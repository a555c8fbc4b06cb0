import IndexOS.Reality.Isolation

/-!
# Exact counters

A page of data should be counted once for every entry that maps it, so that it is given back when
the last entry goes and not before.  `pr2_fork` counts pages by walking the regions while
`pr2_destroy` uncounts them by walking the tables, and `pr2_add_vma` takes regions that overlap: a
page that two regions cover is counted twice by one fork and uncounted once.

* `Accounted` — the counters are exact, a page is with the allocator if and only if it is no table
  and no entry maps it, no page is there twice, and teardown gives back every table.
* `SingleVisit` — the condition on one step: `pr2_fork` meets no mapped page twice.
* `accounted_run` — runs of such steps keep the accounts.
* `overlap_leaks` — two regions over one page, a fork and two exits, and a page is lost.
-/

set_option autoImplicit false

namespace IndexOS.Reality

/-- The accounts of a machine that was booted as `boot`. -/
structure Accounted (boot m : Machine) : Prop where
  refs_eq : ∀ f, Tracked f → m.refs f = holders (held m) f
  nodup : m.pool.Nodup
  sub : ∀ f ∈ m.pool, f ∈ boot.pool
  returned_iff : ∀ f ∈ boot.pool, f ∈ m.pool ↔ holders (held m) f = 0 ∧ ∀ s, ¬ TableOf m s f
  tables_back : ∀ s f, TableOf m s f → f ∉ m.pool ∧ (destroy m s).pool.count f = 1
  all_back : (∀ s, m.spaces s = none) → m.pool.Perm boot.pool

/-- The condition on a step. -/
def SingleVisit (m : Machine) : Op → Prop
  | .fork s => MetOnce m s
  | _ => True

variable {G : Ground} {m : Machine} {role : Nat → Role} {f : Nat}

/-- A page is mapped at one slot only, so no more often than there are address spaces. -/
theorem Inv.holders_le (I : Inv G m role) (f : Nat) : holders (held m) f ≤ 128 := by
  have hle : holders (held m) f ≤ Fintype.card SpaceId :=
    IndexOS.holders_le Prod.fst (fun p p' hp hp' heq => Prod.ext heq (I.slot_eq hp hp').symm)
  simpa using hle

/-- When pages are met once, no counter can run over. -/
theorem Inv.noWrap (I : Inv G m role) (hex : G.exact) {s : SpaceId} (honce : MetOnce m s) :
    NoWrap m s := by
  intro sp hsp x hx f hf ht
  have hrefs := I.ledger.exact_refs hex f ht
  have hle := I.holders_le f
  have hone := honce sp hsp x hx (by rw [Option.mem_def.1 hf]; rfl)
  omega

theorem SingleVisit.stepOk (hex : G.exact) (hexcl : ¬ G.excl) (m : Machine) (role : Nat → Role)
    (op : Op) (I : Inv G m role) (h : SingleVisit m op) : StepOk G m op := by
  cases op with
  | fork s => exact ⟨I.noWrap hex h, fun _ => h⟩
  | mprotect s va len prot => exact fun hX => absurd hX hexcl
  | _ => trivial

theorem Inv.mem_pool_iff
    (I : Inv G m role) (hex : G.exact) (htracked : ∀ f ∈ G.boot.pool, Tracked f)
    (hf : f ∈ G.boot.pool) :
    f ∈ m.pool ↔ holders (held m) f = 0 ∧ ∀ s, ¬ TableOf m s f := by
  constructor
  · intro hmem
    have hfree := (I.pool_iff f).1 hmem
    refine ⟨holders_eq_zero (I.ledger.not_held (not_busy_of_free hfree)), fun s htable => ?_⟩
    have hof := I.role_of_table htable
    rw [hfree] at hof
    rcases hof with h | ⟨i, h⟩ | ⟨i, j, h⟩ <;> cases h
  · rintro ⟨hzero, htable⟩
    rw [I.pool_iff]
    cases hrole : role f with
    | free => rfl
    | outside => exact absurd hf ((I.outside_iff f).1 hrole)
    | data q =>
      have hpos := I.ledger.refs_busy f (htracked f hf) ⟨q, hrole⟩
      have hle := I.ledger.exact_refs hex f (htracked f hf)
      omega
    | root s => exact absurd (I.table_of_role (by rw [hrole]; exact .inl rfl)) (htable s)
    | mid s i =>
      exact absurd (I.table_of_role (by rw [hrole]; exact .inr (.inl ⟨i, rfl⟩))) (htable s)
    | low s i j =>
      exact absurd (I.table_of_role (by rw [hrole]; exact .inr (.inr ⟨i, j, rfl⟩))) (htable s)

/-- The invariant gives the accounts. -/
theorem Inv.accounted (I : Inv G m role) (hboot : Booted G.boot) (hex : G.exact)
    (htracked : ∀ f ∈ G.boot.pool, Tracked f) : Accounted G.boot m := by
  have hsub : ∀ f ∈ m.pool, f ∈ G.boot.pool := by
    intro f hf
    by_contra hout
    have hfree := (I.pool_iff f).1 hf
    rw [(I.outside_iff f).2 hout] at hfree
    cases hfree
  have hiff := fun f hf => I.mem_pool_iff (f := f) hex htracked hf
  refine ⟨fun f ht => Nat.le_antisymm (I.ledger.exact_refs hex f ht) (I.ledger.counted f ht),
    I.ledger.nodup, hsub, hiff, ?_, ?_⟩
  · intro s f htable
    have hof := I.role_of_table htable
    obtain ⟨role', I', hback⟩ := destroy_spec I s
    refine ⟨fun hmem => ?_, ?_⟩
    · rw [(I.pool_iff f).1 hmem] at hof
      rcases hof with h | ⟨i, h⟩ | ⟨i, j, h⟩ <;> cases h
    · exact List.count_eq_one_of_mem I'.ledger.nodup ((I'.pool_iff f).2 (hback f hof))
  · intro hnone
    refine (List.perm_ext_iff_of_nodup I.ledger.nodup hboot.nodup).2
      (fun f => ⟨hsub f, fun hf => ?_⟩)
    refine (hiff f hf).2 ⟨holders_eq_zero (fun p hp => ?_), fun s htable => ?_⟩
    · unfold held mapped at hp
      rw [leaf_of_no_space (hnone p.1)] at hp
      cases hp
    · obtain ⟨sp, hsp, -⟩ := htable
      rw [hnone s] at hsp
      cases hsp

/-- **Main theorem.**  In a run in which no fork meets a mapped page twice, the accounts are right
in every machine that is reached. -/
theorem accounted_run (boot : Machine) (hboot : Booted boot) (htracked : ∀ f ∈ boot.pool, Tracked f)
    (ops : List Op) (hrun : RunMeets SingleVisit boot ops) : Accounted boot (run boot ops) := by
  obtain ⟨role, I⟩ :=
    run_inv (G := ⟨boot, True, False⟩) False.elim (SingleVisit.stepOk trivial id) hboot.inv hrun
  exact I.accounted hboot trivial htracked

instance (m : Machine) (s : SpaceId) : Decidable (MetOnce m s) := by
  unfold MetOnce; infer_instance

instance (m : Machine) : (op : Op) → Decidable (SingleVisit m op)
  | .fork s => inferInstanceAs (Decidable (MetOnce m s))
  | .create | .addVma .. | .handleFault .. | .prefaultRange .. | .writeUser .. | .mprotect ..
  | .removeVmaRange .. | .destroy _ | .store .. => isTrue trivial

theorem accounted_run_forkOnce :
    RunMeets SingleVisit smallMachine forkOnce ∧ Accounted smallMachine
      (run smallMachine forkOnce) := by
  have hrun : RunMeets SingleVisit smallMachine forkOnce := by decide +kernel
  exact ⟨hrun, accounted_run smallMachine smallMachine_booted (by decide) forkOnce hrun⟩

/-- Two regions over one page, one touch, one fork, and both processes go. -/
def overlapRun : List Op :=
  [.create, .addVma 0 0 4096 3 .anon 0 0 0 0 none, .addVma 0 0 4096 3 .anon 0 0 0 0 none,
    .handleFault noFiles 0 0, .fork 0, .destroy 0, .destroy 1]

set_option maxRecDepth 100000 in
/-- Neither address space is left, and of the eight pages seven are back. -/
theorem overlapRun_end : (∀ s, ((run smallMachine overlapRun).spaces s).isNone = true) ∧
    (run smallMachine overlapRun).pool.length = 7 := by
  decide +kernel

/-- The page both regions cover is lost. -/
theorem overlap_leaks :
    Booted smallMachine ∧ (∀ f ∈ smallMachine.pool, Tracked f) ∧
      ¬ Accounted smallMachine (run smallMachine overlapRun) := by
  refine ⟨smallMachine_booted, by decide, fun hacc => ?_⟩
  obtain ⟨hnone, hlength⟩ := overlapRun_end
  have hperm := (hacc.all_back (fun s => by simpa using hnone s)).length_eq
  rw [hlength] at hperm
  cases hperm

end IndexOS.Reality
