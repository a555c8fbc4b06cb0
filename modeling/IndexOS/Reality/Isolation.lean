import IndexOS.Reality.Runs

/-!
# Copy-on-write isolation

After `pr2_fork` two address spaces map the same pages.  They stay apart as long as a page that is
mapped twice is written through no entry.  `pr2_fork` and `pr2_handle_fault` see to that; two
functions do not.  `pr2_mprotect` gives every page of its range the protection it is asked for,
shared or not, and `pr2_write_user` writes into a page whose region is read-only without making a
copy.

* `Discreet` — the condition on one step: `pr2_mprotect` does not make a page writable that another
  address space maps, `pr2_write_user` writes no such page unless its region is writable, and
  `pr2_fork` lets no counter run over.
* `isolated_run` — in runs of such steps a store, or `pr2_write_user`, in one address space changes
  no byte that another one reads.
* `exclusive_run` — what keeps them apart: a page that can be written is mapped once.
* `fork_protect_leaks` — without the condition it does.
-/

set_option autoImplicit false

namespace IndexOS.Reality

open TreeDiagram (kPageSize add64 alignUp alignDown)

/-- No other address space maps the page at the slot. -/
def Unshared (m : Machine) (s : SpaceId) (q : Slot) : Prop :=
  ∀ t, t ≠ s → mapped m s q = none ∨ mapped m t q ≠ mapped m s q

/-- The condition on a step. -/
def Discreet (m : Machine) : Op → Prop
  | .fork s => NoWrap m s
  | .mprotect s va len prot => canWrite prot = true →
      ∀ x ∈ pagesFrom ((alignUp (add64 va len) - alignDown va) / kPageSize) (alignDown va),
        Unshared m s (slotOf x)
  | .writeUser _ s va bytes => ∀ x ∈ byteAddrs bytes.length va,
      WritableRegion m s x = true ∨ Unshared m s (slotOf x)
  | _ => True

/-- The address space a step writes for. -/
def Op.writer : Op → Option SpaceId
  | .store s _ _ => some s
  | .writeUser _ s _ _ => some s
  | _ => none

variable {G : Ground} {m : Machine} {role : Nat → Role} {s : SpaceId}

/-- A page is mapped at one slot only, so it is enough to look there in the other address spaces. -/
theorem Unshared.sole (I : Inv G m role) {q : Slot} (h : Unshared m s q) : Sole m (s, q) := by
  intro f p' hf hp'
  obtain ⟨t, q'⟩ := p'
  have hslot : q' = q := I.slot_eq hf hp'
  subst hslot
  by_contra hne
  have ht : t ≠ s := by
    rintro rfl
    exact hne rfl
  have hs : mapped m s q' = some f := hf
  have ht' : mapped m t q' = some f := hp'
  rcases h t ht with hnone | hdiff
  · rw [hs] at hnone
    cases hnone
  · exact hdiff (ht'.trans hs.symm)

theorem Discreet.stepOk (hex : ¬ G.exact) (m : Machine) (role : Nat → Role) (op : Op)
    (I : Inv G m role) (h : Discreet m op) : StepOk G m op := by
  cases op with
  | fork s => exact ⟨h, fun hexact => absurd hexact hex⟩
  | mprotect s va len prot => exact fun _ hcanw x hx => (h hcanw x hx).sole I
  | _ => trivial

/-- A step that writes for one address space is local to it. -/
theorem local_of_discreet (I : Inv G m role) (hc : Counted G) (hexcl : G.excl) {op : Op}
    (hop : op.writer = some s) (h : Discreet m op) : Local s m (step m op) := by
  cases op with
  | store s' va b =>
    cases hop
    exact (store_spec I s va b).2 hexcl
  | writeUser files s' va bytes =>
    cases hop
    exact (writeUser_spec hc files s bytes va m role I).2 hexcl
      (fun x hx => (h x hx).imp_right (fun hun => hun.sole I))
  | _ => cases hop

/-- **Main theorem.**  In a run of discreet steps, a step that writes for the address space `s`
changes no byte that another address space reads. -/
theorem isolated_run (boot : Machine) (hboot : Booted boot) (htracked : ∀ f ∈ boot.pool, Tracked f)
    (ops : List Op) (op : Op) (hrun : RunMeets Discreet boot (ops ++ [op])) (s : SpaceId)
    (hop : op.writer = some s) (t : SpaceId) (ht : t ≠ s) (va : Nat) :
    readByte (run boot (ops ++ [op])) t va = readByte (run boot ops) t va := by
  let G : Ground := ⟨boot, False, True⟩
  have hc : Counted G := fun _ => htracked
  obtain ⟨hfirst, hlast, -⟩ := RunMeets.append.1 hrun
  obtain ⟨role, I⟩ := run_inv hc (Discreet.stepOk id) hboot.inv hfirst
  have hlocal := local_of_discreet I hc trivial hop hlast
  rw [run_append]
  exact hlocal.readByte_eq ht va

/-! ## The condition met, and not met -/

/-- A machine with eight pages to hand out and a kernel L1 that maps nothing. -/
def smallMachine : Machine where
  kernelL1 := 0x40000
  mem := fun _ _ => 0
  refs := fun _ => 0
  pool := (List.range 8).map (0x40001 + ·)
  spaces := fun _ => none

theorem smallMachine_booted : Booted smallMachine where
  spaces _ := rfl
  refs _ := rfl
  nodup := by decide
  range := by decide
  kernel f hf := by
    rcases hf with rfl | ⟨i, hi, -⟩
    · decide
    · exact absurd hi not_links_zero

def noFiles : Files := ⟨fun _ => 0, fun _ _ _ => []⟩

/-- A process touches a page it may write and forks. -/
def forkOnce : List Op :=
  [.create, .addVma 0 0 4096 3 .anon 0 0 0 0 none, .handleFault noFiles 0 0, .fork 0]

instance (m : Machine) (s : SpaceId) (q : Slot) : Decidable (Unshared m s q) := by
  unfold Unshared; infer_instance

instance (m : Machine) (s : SpaceId) : Decidable (NoWrap m s) := by
  unfold NoWrap; infer_instance

instance (m : Machine) (op : Op) : Decidable (Discreet m op) := by
  cases op <;> unfold Discreet <;> infer_instance

/-- The parent writes after a fork: its page is copied, and the child reads what it read. -/
theorem isolated_run_forkOnce :
    RunMeets Discreet smallMachine (forkOnce ++ [.writeUser noFiles 0 0 [7]]) ∧
      readByte (run smallMachine (forkOnce ++ [.writeUser noFiles 0 0 [7]])) 1 0 =
        readByte (run smallMachine forkOnce) 1 0 := by
  have hrun : RunMeets Discreet smallMachine (forkOnce ++ [.writeUser noFiles 0 0 [7]]) := by
    decide +kernel
  exact ⟨hrun, isolated_run smallMachine smallMachine_booted (by decide) forkOnce
    (.writeUser noFiles 0 0 [7]) hrun 0 rfl 1 (by decide) 0⟩

/-- In such a run a page that can be written through an entry is mapped by no other. -/
theorem exclusive_run (boot : Machine) (hboot : Booted boot) (htracked : ∀ f ∈ boot.pool, Tracked f)
    (ops : List Op) (hrun : RunMeets Discreet boot ops) : Exclusive (run boot ops) := by
  obtain ⟨role, I⟩ :=
    run_inv (G := ⟨boot, False, True⟩) (fun _ => htracked) (Discreet.stepOk id) hboot.inv hrun
  exact I.excl trivial

theorem exclusive_run_forkOnce : Exclusive (run smallMachine forkOnce) :=
  exclusive_run _ smallMachine_booted (by decide) _ (by decide +kernel)

/-- After a fork the parent asks for the protection its page had before, and stores into it: the
child reads the new byte. -/
theorem fork_protect_leaks :
    Booted smallMachine ∧ (∀ f ∈ smallMachine.pool, Tracked f) ∧
      readByte (run smallMachine (forkOnce ++ [.mprotect 0 0 4096 3])) 1 0 = some 0 ∧
      readByte (run smallMachine (forkOnce ++ [.mprotect 0 0 4096 3] ++ [.store 0 0 7])) 1 0 =
        some 7 :=
  ⟨smallMachine_booted, by decide, by decide +kernel, by decide +kernel⟩

end IndexOS.Reality
