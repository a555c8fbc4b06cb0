import IndexOS.Esper.OneCpu

/-!
# The end of an Esper is final

An Esper that has exited or faulted is at most reaped, until `esper_create` takes its slot; and once
the CPU that executed it has come into the kernel, it executes no more of it.

A kill and the end of a group of threads do not ask whether another CPU is executing the Esper they
end. That CPU finds out later, when it comes into the kernel and leaves the Esper through a section
that looks at its state: `esper_preempt_and_pick`, `esper_park_and_pick` and the sections that end
it themselves. The others write a state over the one that is there, and a trap that just returns
looks at nothing.

* `Machine.Final` — the property, of a run;
* `Machine.Noticed` — no step of the run writes the state of an Esper that has ended blindly, and no
  trap that began after the end of its Esper returns to it;
* **`run_final`** — the property holds of a run in which all ends are noticed.
-/

set_option autoImplicit false

namespace IndexOS.Espers

variable {c : Cpu} {before : Slot → Prop} {e : Event}

namespace Machine

variable {m : Machine}

/-! ## Runs -/

/-- The Espers that had ended when their CPU came into the kernel, and whose slots have not been
taken since. -/
def gone (before : Slot → Prop) (m : Machine) (c : Cpu) (e : Event) (x : Slot) : Prop :=
  ¬ Taken m (m.step c e) x ∧ (before x ∨
    (m.entersKernel c e = true ∧ m.live c = some x ∧ (m.kernel.espers x).dead = true))

/-- In every step of the run, whoever has ended stays so until its slot is taken, and whoever had
ended when its CPU came into the kernel is at EL0 on no CPU. -/
def Final (before : Slot → Prop) (m : Machine) : List (Cpu × Event) → Prop
  | [] => True
  | (c, e) :: rest =>
    StaysDead m (m.step c e) ∧
    (∀ c' x, gone before m c e x → (m.step c e).mode c' = .user → (m.step c e).live c' ≠ some x) ∧
    Final (gone before m c e) (m.step c e) rest

/-- The step writes the state of nobody that has ended blindly, and does not return to an Esper that
had ended when the trap began. -/
def Notices (before : Slot → Prop) (m : Machine) (c : Cpu) (e : Event) : Prop :=
  m.Looks c e ∧ ∀ x, before x → ¬ m.ReturnsTo c e x

/-- Every step of the run notices the ends before it. -/
def Noticed (before : Slot → Prop) (m : Machine) : List (Cpu × Event) → Prop
  | [] => True
  | (c, e) :: rest => Notices before m c e ∧ Noticed (gone before m c e) (m.step c e) rest

/-- Those of `before` have ended, and no CPU goes on with one of them. -/
structure Settled (before : Slot → Prop) (m : Machine) : Prop where
  held : Held m
  ended : ∀ x, before x → (m.kernel.espers x).dead = true
  left : ∀ c x, before x → ¬ m.Resumes c x

theorem user_of_entersKernel (h : m.entersKernel c e = true) : m.mode c = .user := by
  cases e with
  | trap | tick _ => exact of_decide_eq_true h
  | _ => exact absurd h (by simp [entersKernel])

theorem Settled.step (h : Settled before m) (hback : m.TakesBackOwn c e)
    (hn : Notices before m c e) :
    StaysDead m (m.step c e) ∧ Settled (gone before m c e) (m.step c e) := by
  have hmoves : Moves (m.Looks c e) (m.GoesOn c e) m c (m.step c e) :=
    step_moves (h.held.modes c) hback id
  have hstays := hmoves.stays hn.1
  have hended : ∀ x, gone before m c e x → ((m.step c e).kernel.espers x).dead = true := by
    rintro x ⟨hnot, hx⟩
    refine (hstays x ?_).resolve_right hnot
    rcases hx with hb | ⟨-, -, hdead⟩
    · exact h.ended x hb
    · exact hdead
  refine ⟨hstays, h.held.moves hmoves, hended, fun c' x hx hres => ?_⟩
  by_cases hc : c' = c
  · subst hc
    rcases hmoves.resumes x hres with halive | ⟨hbefore, hno⟩ | hret
    · cases halive.symm.trans (hended x hx)
    · rcases hx.2 with hb | ⟨henters, -⟩
      · exact h.left c' x hb hbefore
      · cases hno.symm.trans henters
    · rcases hx.2 with hb | ⟨henters, -⟩
      · exact hn.2 x hb hret
      · obtain ⟨now, rfl⟩ := hret.1
        cases henters
  · obtain ⟨-, hmode, hlive⟩ := hmoves.others c' hc
    rw [Resumes, hmode, hlive] at hres
    rcases hx.2 with hb | ⟨henters, hown, -⟩
    · exact h.left c' x hb hres
    · -- the Esper is in the slot of the CPU that came into the kernel, and so in no other
      have hres' : m.Resumes c x := by
        rw [Resumes, user_of_entersKernel henters]
        exact hown
      exact hc (h.held.once c' c x (h.held.resumes_running hres) (h.held.resumes_running hres'))

theorem Settled.final (h : Settled before m) (es : List (Cpu × Event))
    (hback : EachStep TakesBackOwn m es) (hnoticed : Noticed before m es) : Final before m es := by
  induction es generalizing m before with
  | nil => trivial
  | cons s rest ih =>
    obtain ⟨c, e⟩ := s
    obtain ⟨hstays, hsettled⟩ := h.step hback.1 hnoticed.1
    refine ⟨hstays, fun c' x hx huser hlive => hsettled.left c' x hx ?_,
      ih hsettled hback.2 hnoticed.2⟩
    rw [Resumes, huser]
    exact hlive

end Machine

/-- **Main theorem.**  In a run from boot that takes parents back only from nobody, whoever has
ended stays so until its slot is taken for a new pid, and executes nothing more at EL0 once its CPU
has come into the kernel, if no step writes a state over that of an Esper that has ended, and no
trap that began after the end of its Esper returns to it. -/
theorem run_final (es : List (Cpu × Event)) (hback : boot.EachStep Machine.TakesBackOwn es)
    (hnoticed : boot.Noticed (fun _ => False) es) : boot.Final (fun _ => False) es :=
  Machine.Settled.final ⟨boot_held, fun _ hx => absurd hx id, fun _ _ hx => absurd hx id⟩ es hback
    hnoticed

/-! ## Killed at work -/

/-- Events in which nothing can go unnoticed. -/
def Event.plain : Event → Bool
  | .leave _ _ | .waitKeep _ _ | .unstrand | .ret _ => false
  | _ => true

theorem Machine.Notices.of_plain {m : Machine} (h : e.plain = true) :
    Machine.Notices before m c e := by
  cases e with
  | leave | waitKeep | unstrand | ret => cases h
  | _ =>
    refine ⟨fun _ hb => absurd hb id, fun _ _ hr => ?_⟩
    obtain ⟨now, hnow⟩ := hr.1
    cases hnow

theorem Machine.takesBackOwn_of_ne {m : Machine} (es : List (Cpu × Event))
    (h : ∀ s ∈ es, s.2 ≠ .unstrand) : m.EachStep Machine.TakesBackOwn es := by
  induction es generalizing m with
  | nil => trivial
  | cons s rest ih =>
    exact ⟨fun hs => absurd hs (h s List.mem_cons_self),
      ih fun s hs => h s (List.mem_cons_of_mem _ hs)⟩

/-- Three processes on two CPUs; the second kills the first, which CPU 0 is executing at EL0. -/
def killedAtEl0 : List (Cpu × Event) :=
  [(cpu0, .spawn .linux (some 1) {}), (cpu0, .spawn .linux (some 2) {}),
    (cpu0, .spawn .linux (some 3) {}),
    (cpu0, .quiet (.setOnlineCpus 2)), (cpu0, .pick 0), (cpu0, .enter), (cpu1, .pick 0),
    (cpu1, .enter),
    (cpu1, .trap), (cpu1, .quiet (.kill 0 9))]

set_option maxRecDepth 100000 in
/-- The next tick of CPU 0 goes on with the third: `esper_preempt_and_pick` looks at the state. -/
theorem killedAtEl0_final :
    ((boot.run killedAtEl0).mode cpu0 = .user ∧ (boot.run killedAtEl0).live cpu0 = some 0 ∧
      ((boot.run killedAtEl0).kernel.espers 0).dead = true) ∧
    boot.Final (fun _ => False)
      (killedAtEl0 ++ [(cpu0, .tick 0), (cpu0, .ret 0), (cpu0, .compute {})]) := by
  refine ⟨⟨by decide +kernel, by decide +kernel, by decide +kernel⟩, run_final _ ?_ ?_⟩
  · exact Machine.takesBackOwn_of_ne _ (by simp [killedAtEl0])
  · have hmode : ((boot.run killedAtEl0).step cpu0 (.tick 0)).mode cpu0 = .switched 0 false := by
      decide +kernel
    refine ⟨.of_plain rfl, .of_plain rfl, .of_plain rfl, .of_plain rfl, .of_plain rfl,
      .of_plain rfl,
      .of_plain rfl, .of_plain rfl, .of_plain rfl, .of_plain rfl, .of_plain rfl, ?_, .of_plain rfl,
      trivial⟩
    constructor
    · rintro x ⟨hm, -⟩
      cases hmode.symm.trans hm
    · rintro x - ⟨-, hm⟩
      cases hmode.symm.trans hm

theorem Machine.Final.last {m : Machine} (es : List (Cpu × Event)) {c : Cpu}
    (h : m.Final before (es ++ [(c, e)])) : (m.run es).StaysDead ((m.run es).step c e) := by
  induction es generalizing m before with
  | nil => exact h.1
  | cons s rest ih => exact ih h.2.2

/-- Two processes, each on a CPU of its own; the second kills the first, which then makes a system
call, returns from it and makes another. -/
def killedAtWork : List (Cpu × Event) :=
  [(cpu0, .spawn .linux (some 1) {}), (cpu0, .spawn .linux (some 2) {}),
    (cpu0, .quiet (.setOnlineCpus 2)),
    (cpu0, .pick 0), (cpu0, .enter), (cpu1, .pick 0), (cpu1, .enter),
    (cpu1, .trap), (cpu1, .quiet (.kill ⟨0, by decide⟩ 9)),
    (cpu0, .trap), (cpu0, .own (.result 0)), (cpu0, .ret 0), (cpu0, .trap)]

set_option maxRecDepth 100000 in
/-- The second call is a wait on a futex, and the process that had exited waits. -/
theorem killedAtWork_waits : ¬ boot.Final (fun _ => False)
    (killedAtWork ++ [(cpu0, .leave (.park (.futex 0)) 0)]) := by
  intro h
  have hdead : ((boot.run killedAtWork).kernel.espers ⟨0, by decide⟩).dead =
    true := by decide +kernel
  have halive : (((boot.run killedAtWork).step cpu0 (.leave (.park (.futex 0)) 0)).kernel.espers
      ⟨0, by decide⟩).dead = false := by decide +kernel
  have hpid : ((boot.run killedAtWork).step cpu0 (.leave (.park (.futex 0)) 0)).kernel.nextPid =
      (boot.run killedAtWork).kernel.nextPid := by decide +kernel
  rcases Machine.Final.last killedAtWork h _ hdead with hd | ⟨ht, -⟩
  · cases halive.symm.trans hd
  · omega

end IndexOS.Espers
