import IndexOS.Esper.Moves

/-!
# An Esper runs on one CPU

No section claims an Esper that is in the slot of another CPU, and a CPU that returns to EL0 returns
to the Esper of its slot.  There is one exception: `clone` with `CLONE_VFORK`, when the hand-off
finds nobody to run, takes the parent back in a second critical section and does not look again.  By
then the parent may have been woken and claimed elsewhere.

* `Machine.OnOneCpu` — the property;
* `always_onOneCpu_iff` — it holds throughout a run exactly if no CPU takes back a parent that
  another one has claimed.
-/

set_option autoImplicit false

namespace IndexOS.Espers

variable {c : Cpu} {i child : Slot}

namespace Machine

variable {m : Machine}

/-- No Esper is on two CPUs, and a CPU at EL0 executes the Esper of its own slot. -/
def OnOneCpu (m : Machine) : Prop :=
  Once m.kernel ∧ ∀ c, m.mode c = .user → ∃ n, m.live c = some n ∧ m.kernel.running c = some n

theorem Held.onOneCpu {m : Machine} (h : Held m) : m.OnOneCpu := by
  refine ⟨h.once, fun c hc => ?_⟩
  have hmode := h.modes c
  rwa [hc] at hmode

theorem step_held (h : Held m) (c : Cpu) (e : Event) (hback : m.TakesBackOwn c e) :
    Held (m.step c e) :=
  h.moves (step_moves (a := False) (h.modes c) hback nofun)

/-- A parent that is taken back is in the slot of this CPU, whoever else has it. -/
theorem unstrand_running (hm : m.mode c = .stranded i child) (c' : Cpu) :
    (m.step c .unstrand).kernel.running c' = if c' = c then some i else m.kernel.running c' := by
  have hstep : m.step c .unstrand = m.unstrand c i child := by
    unfold step
    rw [hm]
  rw [hstep]
  exact claim_running _ c c' i

/-- The property after a step that takes a parent back says that nobody else had it. -/
theorem takesBackOwn_of_onOneCpu {e : Event} (h : (m.step c e).OnOneCpu) : m.TakesBackOwn c e := by
  rintro rfl i child hm c' hc' hrunning
  refine hc' (h.1 c' c i ?_ ?_)
  · rw [unstrand_running hm, if_neg hc']
    exact hrunning
  · rw [unstrand_running hm, if_pos rfl]

theorem Held.always_iff (h : Held m) (es : List (Cpu × Event)) :
    Always OnOneCpu m es ↔ EachStep TakesBackOwn m es :=
  Traces.always_iff_eachStep (fun _ h => h.onOneCpu)
    (fun _ s h _ hback => step_held h s.1 s.2 hback)
    (fun _ _ _ _ => takesBackOwn_of_onOneCpu) h (.trivial es)

end Machine

theorem boot_held : boot.Held := ⟨fun _ _ _ h => absurd h (by simp [boot]), fun _ => trivial⟩

/-- **Main theorem.**  In a run from boot no Esper is ever on two CPUs, and every CPU at EL0
executes the Esper of its own slot, exactly if `esper_set_running` after a failed hand-off never
takes a parent that another CPU has claimed. -/
theorem always_onOneCpu_iff (es : List (Cpu × Event)) :
    boot.Always Machine.OnOneCpu es ↔ boot.EachStep Machine.TakesBackOwn es :=
  boot_held.always_iff es

def cpu0 : Cpu := ⟨0, by decide⟩

def cpu1 : Cpu := ⟨1, by decide⟩

/-- The process on CPU 1 lowers the cap to one CPU and calls vfork: the hand-off finds nobody, since
its CPU may no longer pick.  CPU 0 takes the child, whose exec wakes the parent, and then the
parent; and CPU 1 takes the parent back. -/
def cappedVfork : List (Cpu × Event) :=
  [(cpu0, .spawn .linux (some 1) {}), (cpu0, .quiet (.setOnlineCpus 2)), (cpu1, .pick 0),
    (cpu1, .enter),
    (cpu1, .trap), (cpu1, .quiet (.setOnlineCpus 1)), (cpu1, .own (.result 0)), (cpu1, .ret 0),
    (cpu1, .trap), (cpu1, .clone true true), (cpu1, .publish none none none 0),
    (cpu0, .pick 0), (cpu0, .enter), (cpu0, .trap), (cpu0, .own (.exec .linux (some 2) {})),
    (cpu0, .ret 0),
    (cpu0, .tick 0), (cpu0, .ret 0), (cpu1, .unstrand), (cpu1, .ret 0)]

set_option maxRecDepth 100000 in
/-- The parent runs on both CPUs. -/
theorem cappedVfork_two_cpus : ¬ (boot.run cappedVfork).OnOneCpu := by
  intro h
  have h₀ : (boot.run cappedVfork).kernel.running cpu0 = some ⟨0, by decide⟩ := by decide +kernel
  have h₁ : (boot.run cappedVfork).kernel.running cpu1 = some ⟨0, by decide⟩ := by decide +kernel
  cases h.1 cpu0 cpu1 _ h₀ h₁

end IndexOS.Espers
