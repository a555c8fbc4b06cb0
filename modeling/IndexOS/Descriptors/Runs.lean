import IndexOS.Descriptors.Transfer

/-!
# Reference counts over whole runs

A run is any sequence of the calls and events of `IndexOS.Descriptors.Calls` from boot.  The counts
are exact in every state of a run (`Exact`) when each of its steps meets `Op.Meets`:

* `clone` copies no timerfd, signalfd or inotify descriptor, for which its loop takes no reference;
* a process that is reaped while a fatal fault takes its group down has no descriptor that names an
  object, because its table is not released;
* a step that drops descriptors does not free a listener on which connections wait (`Spares`),
  because the reference such a connection was born with is then never dropped.

A connection that waits to be accepted has one reference and no descriptor yet, so its place in the
queue counts as well.

* `step_booked` — a step that meets the condition keeps the books;
* `exact_of_booked` — the books say what `Exact` says.
-/

set_option autoImplicit false

namespace IndexOS.Descriptors

open List

/-- The listeners with waiting connections are held up by the entries `P` and the descriptors `K`
that will be installed: the step that leaves these frees none of them. -/
def Spares (P : Fin kMaxEspers → Proc) (s : State) (K : List Fd) : Prop := ∃ S, Anchored P s K S

/-- The condition on a step, in the state before it. -/
def Op.Meets (s : State) : Op → Prop
  | .clone p _ ok => ok = true → ∀ i, ¬ ((s.procs p).fds i).forgotten
  | .close p fd => ∀ i, slot kMaxFds (some fd) = some i → Spares (withFd s.procs p i {}) s []
  | .dup3 p fd newfd => ∀ old i, openFd s p fd = some old → slot kMaxFds (some newfd) = some i →
      old ≠ i → Spares (withFd s.procs p i {}) s []
  | .accept4 p fd => ∀ k g s', openFd s p fd = some k →
      tryAccept s ((s.procs p).fds k) = some (g, s') → freeFd s p 0 = none → Spares s.procs s' []
  | .recvmsg p fd want control parks => ∀ k j, openFd s p fd = some k →
      ((s.procs p).fds k).names = some (.channel j) →
      Spares s.procs (recvFds s j want control parks).2
        ((recvFds s j want control parks).1.take (closedFds s p))
  | .execve p => Spares (withFds s.procs p (dropFds Fd.dropsOnExec (s.procs p).fds)) s []
  | .exit p | .fault p false => Spares (withFds s.procs p fun _ => {}) s []
  | .fault p true => ∀ i, ((s.procs p).fds i).names = none
  | _ => True

/-- Every step of the run meets the condition in the state it is taken in. -/
abbrev RunMeets : List Op → Prop :=
  Traces.EachStep step (fun s op => op.enabled s = true → op.Meets s) {}

/-- The ends of the object whose slot an end belongs to. -/
def Obj.ends : Obj → List Obj
  | .pipeRead i | .pipeWrite i => [.pipeRead i, .pipeWrite i]
  | .ptyMaster i | .ptySlave i => [.ptyMaster i, .ptySlave i]
  | o => [o]

/-- The live table entries and the descriptors in flight that name an object. -/
def users (s : State) (o : Obj) : Nat := named s.procs o + inFlight s ∅ o

/-- Every object has as many references as it has users and places in accept queues, and its slot is
taken exactly while one of its ends has one. -/
def Exact (s : State) : Prop :=
  ∀ o, refs s o = users s o + queued s o ∧
    (busy s o = true ↔ ∃ e ∈ o.ends, 0 < users s e + queued s e)

/-! ## One step -/

variable {s : State}

theorem perform_booked (h : Booked s) {op : Op} (hen : op.enabled s = true) (hmeets : op.Meets s) :
    Booked (perform s op) := by
  obtain ⟨hcaller, hslot⟩ := Bool.and_eq_true_iff.1 hen
  cases op with
  | spawn c => exact esperCreate_booked h (by simpa using hslot)
  | openPlain p kind => exact openPlain_booked h hcaller kind
  | openPtmx p => exact openPtmx_booked h hcaller
  | openPts p n => exact openPts_booked h hcaller n
  | unlockpt p fd => exact unlockpt_booked h fd
  | pipe2 p heap => exact linuxPipe2_booked h hcaller heap
  | socket p t cloexec => exact socketCall_booked h hcaller t cloexec
  | socketpair p => exact socketpairCall_booked h hcaller
  | event p t => exact eventCall_booked h hcaller t
  | bind p fd path ok => exact bindCall_booked h fd path ok
  | listen p fd backlog => exact listenCall_booked h fd backlog
  | connect p fd path ok => exact connectCall_booked h fd path ok
  | accept4 p fd => exact accept4_booked h hcaller hmeets
  | dup p fd => exact linuxDupFd_booked h hcaller fd
  | dupfd p fd minfd cloexec => exact fcntlDupfd_booked h hcaller fd minfd cloexec
  | setfd p fd cloexec => exact fcntlSetfd_booked h hcaller fd cloexec
  | dup3 p fd newfd => exact linuxDup3Fd_booked h hcaller hmeets
  | close p fd => exact linuxFdClose_booked h hcaller hmeets
  | write p fd len => exact writeCall_booked h fd len
  | read p fd cap => exact readCall_booked h fd cap
  | sendmsg p fd control len => exact sendmsg_booked h hcaller fd control len
  | recvmsg p fd want control parks => exact recvmsg_booked h hcaller hmeets
  | clone p c ok => exact linuxClone_booked h hcaller (by simpa using hslot) hmeets
  | execve p =>
    obtain ⟨S, hS⟩ := hmeets
    exact execveCloexec_booked h hcaller hS
  | exit p =>
    obtain ⟨S, hS⟩ := hmeets
    exact exitProc_booked h hcaller hS
  | fault p reaped =>
    cases reaped with
    | true => exact bury_booked h hmeets
    | false =>
      obtain ⟨S, hS⟩ := hmeets
      exact exitProc_booked h hcaller hS
  | syn l => exact deliverSyn_booked h l
  | packet i st => exact deliverTcp_booked h i st

/-! ## Whole runs -/

theorem boot_booked : Booked {} where
  sound := by
    refine ⟨fun _ => ?_, fun _ => ?_, fun _ => ?_, fun _ => ?_, fun _ _ => ?_⟩
    · simp [Aiwass.Ok]
    · exact ⟨by simp, by simp, by simp, by simp⟩
    · exact ⟨by simp, by simp, by simp, by simp, by simp, by simp, by simp⟩
    · simp [Relay.Ok]
    · simp [Cell.Ok]
  balanced o := by
    have hn : named ({} : State).procs o = 0 := tally_eq_zero fun _ => rfl
    have hf : inFlight {} ∅ o = 0 := tally_eq_zero fun _ => rfl
    have hq : queued {} o = 0 :=
      congrArg₂ (· + ·) (tally_eq_zero fun _ => rfl) (tally_eq_zero fun _ => rfl)
    rw [hn, hf, hq]
    cases o <;> rfl

theorem step_booked (h : Booked s) {op : Op} (hmeets : op.enabled s = true → op.Meets s) :
    Booked (step s op) := by
  rw [step]
  split
  next hen => exact perform_booked h hen (hmeets hen)
  · exact h

/-- What balanced books say. -/
theorem exact_of_booked (h : Booked s) : Exact s := by
  have hrefs : ∀ o, users s o + queued s o = refs s o := by
    intro o
    have := h.balanced o
    rw [inHand_nil] at this
    unfold users
    omega
  -- a slot with two ends is taken while one of them has a reference
  have hpair : ∀ a b, 0 < refs s a + refs s b ↔ ∃ e ∈ [a, b], 0 < refs s e := by
    intro a b
    simp only [mem_cons, not_mem_nil, or_false, exists_eq_or_imp, exists_eq_left]
    omega
  intro o
  simp only [hrefs, true_and]
  cases o with
  | pipeRead i | pipeWrite i => exact (h.sound.pipes i).trans (hpair (.pipeRead i) (.pipeWrite i))
  | ptyMaster i | ptySlave i => exact (h.sound.relays i).trans (hpair (.ptyMaster i) (.ptySlave i))
  | socket i =>
    simp only [busy, Obj.ends, mem_singleton, exists_eq_left, decide_eq_true_eq]
    exact (h.sound.antennas i).used
  | channel i =>
    simp only [busy, Obj.ends, mem_singleton, exists_eq_left, decide_eq_true_eq]
    exact (Good.channelOk h i).used.trans (by simp [refs])
  | event t i =>
    simp only [Obj.ends, mem_singleton, exists_eq_left]
    exact h.sound.events t i

/-- **Main theorem.**  In every state of a run whose steps meet the condition, the reference counts
are exact. -/
theorem run_refs_exact (ops : List Op) (h : RunMeets ops) (n : Nat) : Exact (run (ops.take n)) := by
  have hexact : Traces.Always step Exact {} ops :=
    .of_invariant (I := Booked) (fun _ => exact_of_booked) (fun _ _ hs => step_booked hs)
      boot_booked h
  exact hexact.take n

/-- Two processes, for the runs below. -/
def parent : Fin kMaxEspers := 0
def child : Fin kMaxEspers := 1

/-- Where no connection waits, every step spares the listeners. -/
theorem spares_of_idle (ha : ∀ i, (s.antennas i).acceptQueue = [])
    (hc : ∀ i, (s.channels i).acceptQueue = [])
    (P : Fin kMaxEspers → Proc) (K : List Fd) : Spares P s K := by
  refine ⟨∅, fun o ho => ?_, fun o ho => absurd ho (Set.notMem_empty o)⟩
  cases o <;> simp [waiting, ha, hc] at ho

/-- A pipe that is inherited, closed in the child and dropped with the parent. -/
theorem run_refs_exact_pipe :
    Exact (run ([.spawn parent, .pipe2 parent true, .clone parent child true, .close child 3,
      .exit parent].take 5)) := by
  refine run_refs_exact _ ?_ 5
  refine ⟨fun _ => trivial, fun _ => trivial, fun _ _ => ?_, fun _ i _ => ?_, fun _ => ?_, trivial⟩
  · unfold Fd.forgotten
    decide +kernel
  all_goals exact spares_of_idle (by decide +kernel) (by decide +kernel) _ _

/-- A timerfd, and a `fork`: the copy in the child has no reference.  When the child closes it, the
timerfd is gone, and its parent still names it. -/
theorem clone_timerfd_not_exact :
    let s := run [.spawn parent, .event parent .timerfd, .clone parent child true]
    let o : Obj := .event .timerfd ⟨0, by decide⟩
    ¬ Exact s ∧ refs s o = 1 ∧ users s o = 2 ∧
      busy (step s (.close child 3)) o = false ∧ users (step s (.close child 3)) o = 1 := by
  intro s o
  have hvalues : queued s o = 0 ∧ refs s o = 1 ∧ users s o = 2 ∧
      busy (step s (.close child 3)) o = false ∧ users (step s (.close child 3)) o = 1 := by
    decide +kernel
  refine ⟨fun hexact => ?_, hvalues.2⟩
  have := (hexact o).1
  omega

end IndexOS.Descriptors
