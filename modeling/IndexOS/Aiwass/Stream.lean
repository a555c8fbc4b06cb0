import IndexOS.Aiwass.Loops
import IndexOS.Lib.Tally

/-!
# A pipe is a stream of bytes

Whoever holds the two ends, the ring holds what completed writes have reported and completed reads
have not delivered, as long as every call does all of its work or none.

* `World.Inv`, `World.Inv.step` — the invariant;
* `World.Inv.smooth` — a call that stops in the middle breaks it at once;
* `pipe_iff` — the main theorem.
-/

set_option autoImplicit false

namespace IndexOS.Pipes

open Traces (Always EachStep always_and_eachStep_iff)

/-! ## The invariant -/

namespace World

variable {w : World} {i j : Pid} {pd : Pending}

structure Inv (w : World) : Prop where
  tidy : w.pipe.ring.Tidy
  reads : w.pipe.readRefs = tally (fun _ p => p.reads) w.procs
  writes : w.pipe.writeRefs = tally (fun _ p => p.writes) w.procs
  inUse : w.pipe.inUse = true ↔ 0 < w.pipe.readRefs + w.pipe.writeRefs
  sound : Sound w
  fresh : ∀ i pd, (w.procs i).pending = some pd → pd.Fresh ∧ (w.procs i).has pd.call.side = true

theorem Inv.reads_le (h : Inv w) (i : Pid) : (w.procs i).reads ≤ w.pipe.readRefs :=
  h.reads ▸ le_tally (fun _ p => p.reads) w.procs i

theorem Inv.writes_le (h : Inv w) (i : Pid) : (w.procs i).writes ≤ w.pipe.writeRefs :=
  h.writes ▸ le_tally (fun _ p => p.writes) w.procs i

variable {side : End} {q : Proc}

/-- Who has a descriptor has a pipe. -/
theorem Inv.inUse_of_has (h : Inv w) (hhas : (w.procs i).has side = true) :
    w.pipe.inUse = true := by
  rw [h.inUse]
  have hreads := h.reads_le i
  have hwrites := h.writes_le i
  cases side with
  | read =>
    have : 0 < (w.procs i).reads := by simpa [Proc.has] using hhas
    omega
  | write =>
    have : 0 < (w.procs i).writes := by simpa [Proc.has] using hhas
    omega

/-- Something is done to one process and to the pipe. -/
theorem Inv.revise (h : Inv w) {w' : World} (hprocs : w'.procs = Function.update w.procs i q)
    (htidy : w'.pipe.ring.Tidy)
    (hreads : w'.pipe.readRefs + (w.procs i).reads = w.pipe.readRefs + q.reads)
    (hwrites : w'.pipe.writeRefs + (w.procs i).writes = w.pipe.writeRefs + q.writes)
    (huse : w'.pipe.inUse = true ↔ 0 < w'.pipe.readRefs + w'.pipe.writeRefs) (hsound : Sound w')
    (hfresh : ∀ pd, q.pending = some pd → pd.Fresh ∧ q.has pd.call.side = true) : Inv w' := by
  have hr := tally_update (fun (_ : Pid) (p : Proc) => p.reads) w.procs i q
  have hw := tally_update (fun (_ : Pid) (p : Proc) => p.writes) w.procs i q
  refine ⟨htidy, ?_, ?_, huse, hsound, fun j pd hpd => ?_⟩
  · rw [hprocs]
    have := h.reads
    omega
  · rw [hprocs]
    have := h.writes
    omega
  · rw [hprocs] at hpd ⊢
    by_cases hj : j = i
    · rw [hj, Function.update_self] at hpd ⊢
      exact hfresh pd hpd
    · rw [Function.update_of_ne hj] at hpd ⊢
      exact h.fresh j pd hpd

/-! ## Calls -/

section
variable (h : Inv w) (hhas : (w.procs i).has pd.call.side = true)
include h hhas

variable (hfresh : pd.Fresh)
include hfresh

theorem Inv.exec (hsmooth : pd.Smooth w.pipe) : Inv (w.exec i pd) := by
  have hin := h.inUse_of_has hhas
  obtain ⟨hmoves, hnext, -⟩ := (exec_runs hin h.tidy hfresh).smooth hsmooth
  have hrest : (w.exec i pd).sent = (w.exec i pd).delivered ++
    (w.exec i pd).pipe.ring.contents := by
    rw [World.exec]
    rw [h.sound.rest hin, List.append_assoc, hmoves.contents, List.append_assoc]
  refine h.revise rfl hmoves.tidy ?_ ?_ ?_ ⟨⟨_, hrest.symm⟩, fun _ => hrest⟩ fun pd' hpd' =>
    ⟨hnext pd' hpd', ?_⟩
  · rw [World.exec]
    rw [hmoves.readRefs]
  · rw [World.exec]
    rw [hmoves.writeRefs]
  · rw [World.exec]
    rw [hmoves.inUse, hmoves.readRefs, hmoves.writeRefs]
    exact h.inUse
  · have hcall : pd'.call = pd.call := by
      cases hstop : (w.pipe.exec pd.nonblock pd.call pd.point).2 with
      | done answer got => rw [hstop] at hpd'; exact absurd hpd' (by simp [Pending.next])
      | parked | again => rw [hstop] at hpd'; obtain rfl := Option.some.inj hpd'; rfl
    rw [hcall]
    exact hhas

/-- What the answer says, if the call does not stop in the middle. -/
theorem Inv.answers_of (hsmooth : pd.Smooth w.pipe) {answer : Int} {got : List UInt8}
    (hdone : (w.pipe.exec pd.nonblock pd.call pd.point).2 = .done answer got) :
    (pd.call.wanted ≠ 0 → answer = 0 → w.delivered = w.sent ∧ ∀ i, (w.procs i).writes = 0) ∧
      (∀ v, pd.call = .write (some v) → v.data.length ≤ kAiwassPipeBuf → 0 ≤ answer →
        answer = v.data.length) := by
  have huse := h.inUse_of_has hhas
  have hruns := exec_runs huse h.tidy hfresh
  refine ⟨fun hwanted hzero => ?_,
    fun v hcall hshort => hruns.short v hcall hshort answer got hdone⟩
  rw [hzero] at hdone
  obtain ⟨havail, hwriters⟩ := (hruns.smooth hsmooth).2.2 got hdone hwanted
  refine ⟨?_, fun j => ?_⟩
  · rw [h.sound.rest huse, RingBuffer.contents_eq_nil havail, List.append_nil]
  · have hle := h.writes_le j
    omega

/-- A call that stops in the middle breaks the stream, or says 0 although there are writers. -/
theorem Inv.smooth_of (hsound : Sound (w.exec i pd))
    (hanswers : ∀ got, (w.pipe.exec pd.nonblock pd.call pd.point).2 = .done 0 got →
      pd.call.wanted ≠ 0 → ∀ j, (w.procs j).writes = 0) :
    pd.Smooth w.pipe := by
  by_contra hrough
  have huse := h.inUse_of_has hhas
  rcases (exec_runs huse h.tidy hfresh).rough hrough with ⟨hin, hne, hquiet⟩
    | ⟨hwanted, hwriters, got, hdone⟩
  · have hrest := hsound.rest
    rw [World.exec] at hrest
    have heq := hrest (hin.trans huse)
    rw [hquiet.reported, hquiet.received, List.append_nil, List.append_nil, h.sound.rest huse,
      List.append_cancel_left_eq] at heq
    refine hne ?_
    rw [← RingBuffer.length_contents, ← heq, RingBuffer.length_contents]
  · have hzero :=
      tally_eq_zero (w := fun (_ : Pid) (p : Proc) => p.writes) (hanswers got hdone hwanted)
    have := h.writes
    omega

end

/-! ## Descriptors -/

theorem holds_iff :
    w.holds i side = true ↔ (w.procs i).pending = none ∧ (w.procs i).has side = true := by
  simp [holds, idle]

theorem fresh_of_idle (hidle : q.pending = none) (pd : Pending) (hpd : q.pending = some pd) :
    pd.Fresh ∧ q.has pd.call.side = true := nomatch hidle.symm.trans hpd

section
variable (h : Inv w)
include h

theorem Inv.dup (hholds : w.holds i side = true) : Inv (w.dup i side) := by
  obtain ⟨hidle, hhas⟩ := holds_iff.1 hholds
  have huse := h.inUse_of_has hhas
  cases side with
  | read =>
    have hpipe : w.pipe.incRead 1 = { w.pipe with readRefs := w.pipe.readRefs + 1 } := by
      rw [Aiwass.incRead, if_pos huse]
    rw [dup, hpipe]
    refine h.revise rfl h.tidy ?_ rfl ?_ ⟨h.sound.delivered, h.sound.rest⟩ (fresh_of_idle hidle)
    · dsimp only
      omega
    · exact iff_of_true huse (by dsimp only; omega)
  | write =>
    have hpipe : w.pipe.incWrite 1 = { w.pipe with writeRefs := w.pipe.writeRefs + 1 } := by
      rw [Aiwass.incWrite, if_pos huse]
    rw [dup, hpipe]
    refine h.revise rfl h.tidy rfl ?_ ?_ ⟨h.sound.delivered, h.sound.rest⟩ (fresh_of_idle hidle)
    · dsimp only
      omega
    · exact iff_of_true huse (by dsimp only; omega)

/-- One descriptor less; without any the pipe is freed. -/
theorem Inv.drop (huse : w.pipe.inUse = true) {p : Aiwass} (hring : p.ring = w.pipe.ring)
    (hin : p.inUse = w.pipe.inUse)
    (hreads : p.readRefs + (w.procs i).reads = w.pipe.readRefs + q.reads)
    (hwrites : p.writeRefs + (w.procs i).writes = w.pipe.writeRefs + q.writes)
    (hidle : q.pending = none) :
    Inv { w.setProc i q with pipe := p.maybeFree } := by
  rw [Aiwass.maybeFree]
  split
  next hsome =>
    refine h.revise rfl ?_ hreads hwrites (iff_of_true (hin.trans huse) ?_) ?_ (fresh_of_idle hidle)
    · rw [hring]
      exact h.tidy
    · dsimp only
      omega
    · refine ⟨h.sound.delivered, fun _ => ?_⟩
      rw [hring]
      exact h.sound.rest huse
  next hnone =>
    rw [not_or, not_not, not_not] at hnone
    refine h.revise rfl (RingBuffer.tidy_empty _ (by decide)) ?_ ?_
      (iff_of_false (by simp) (by simp)) ⟨h.sound.delivered, nofun⟩ (fresh_of_idle hidle)
    · rw [← hreads, hnone.1]
    · rw [← hwrites, hnone.2]

theorem Inv.close (hholds : w.holds i side = true) : Inv (w.close i side) := by
  obtain ⟨hidle, hhas⟩ := holds_iff.1 hholds
  have huse := h.inUse_of_has hhas
  have hreads := h.reads_le i
  have hwrites := h.writes_le i
  cases side with
  | read =>
    have hpos : 0 < (w.procs i).reads := by simpa [Proc.has] using hhas
    rw [close, Aiwass.closeRead, if_pos huse]
    refine h.drop huse rfl rfl ?_ rfl hidle
    dsimp only
    omega
  | write =>
    have hpos : 0 < (w.procs i).writes := by simpa [Proc.has] using hhas
    rw [close, Aiwass.closeWrite, if_pos huse]
    refine h.drop huse rfl rfl rfl ?_ hidle
    dsimp only
    omega

theorem Inv.fork (hidle : (w.procs j).pending = none) (hreads : (w.procs j).reads = 0)
    (hwrites : (w.procs j).writes = 0) : Inv (w.fork i j) := by
  by_cases huse : w.pipe.inUse = true
  · have hpipe : (w.pipe.incRead (w.procs i).reads).incWrite (w.procs i).writes =
        { w.pipe with
          readRefs := w.pipe.readRefs + (w.procs i).reads, writeRefs :=
            w.pipe.writeRefs + (w.procs i).writes } := by
      rw [Aiwass.incRead, if_pos huse, Aiwass.incWrite, if_pos huse]
    have hsome := h.inUse.1 huse
    rw [World.fork, hpipe]
    refine h.revise rfl h.tidy ?_ ?_ (iff_of_true huse ?_) ⟨h.sound.delivered, h.sound.rest⟩
      (fresh_of_idle hidle) <;> dsimp only <;> omega
  · have hpipe : (w.pipe.incRead (w.procs i).reads).incWrite (w.procs i).writes = w.pipe := by
      rw [Aiwass.incRead, if_neg huse, Aiwass.incWrite, if_neg huse]
    -- without a pipe there is no descriptor
    have hnone := mt h.inUse.2 huse
    have hreads := h.reads_le i
    have hwrites := h.writes_le i
    rw [World.fork, hpipe]
    refine h.revise rfl h.tidy ?_ ?_ h.inUse ⟨h.sound.delivered, h.sound.rest⟩
      (fresh_of_idle hidle) <;> dsimp only <;> omega

/-! ## Every step -/

theorem Inv.step {e : Event} (hsmooth : w.Smooth e) : Inv (w.step e) := by
  cases e with
  | call i nonblock c =>
    rw [World.step]
    split
    next hholds => exact h.exec (holds_iff.1 hholds).2 trivial (hsmooth hholds)
    · exact h
  | resume i =>
    rw [World.step]
    cases hpd : (w.procs i).pending with
    | none => exact h
    | some pd =>
      obtain ⟨hfresh, hhas⟩ := h.fresh i pd hpd
      exact h.exec hhas hfresh (hsmooth pd hpd)
  | dup i side =>
    rw [World.step]
    split
    next hholds => exact h.dup hholds
    · exact h
  | close i side =>
    rw [World.step]
    split
    next hholds => exact h.close hholds
    · exact h
  | fork i j =>
    rw [World.step]
    split
    next hboth =>
      obtain ⟨hidle, hreads, hwrites⟩ :
        (w.procs j).pending = none ∧ (w.procs j).reads = 0 ∧ (w.procs j).writes = 0 := by
        simpa [absent, idle] using hboth.2
      exact h.fork hidle hreads hwrites
    · exact h

theorem Inv.answers {e : Event} (hsmooth : w.Smooth e) : w.Answers e := by
  intro c answer hanswer
  cases e with
  | call i nonblock c' =>
    rw [World.answer] at hanswer
    split at hanswer
    next hholds =>
      cases hstop : (w.pipe.exec nonblock c' .start).2 with
      | done r got =>
        rw [hstop] at hanswer
        obtain ⟨rfl, rfl⟩ := Prod.mk.inj (Option.some.inj hanswer)
        have hfresh : Pending.Fresh { call := c', nonblock } := trivial
        exact h.answers_of (holds_iff.1 hholds).2 hfresh (hsmooth hholds) hstop
      | parked | again => rw [hstop] at hanswer; cases hanswer
    · cases hanswer
  | resume i =>
    rw [World.answer] at hanswer
    cases hpd : (w.procs i).pending with
    | none => rw [hpd] at hanswer; cases hanswer
    | some pd =>
      obtain ⟨hfresh, hhas⟩ := h.fresh i pd hpd
      rw [hpd] at hanswer
      dsimp only at hanswer
      cases hstop : (w.pipe.exec pd.nonblock pd.call pd.point).2 with
      | done r got =>
        rw [hstop] at hanswer
        obtain ⟨rfl, rfl⟩ := Prod.mk.inj (Option.some.inj hanswer)
        exact h.answers_of hhas hfresh (hsmooth pd hpd) hstop
      | parked | again => rw [hstop] at hanswer; cases hanswer
  | dup | close | fork => exact absurd hanswer (by simp [World.answer])

theorem Inv.smooth (e : Event) (hsound : Sound (w.step e)) (hanswers : w.Answers e) :
    w.Smooth e := by
  cases e with
  | call i nonblock c =>
    intro hholds
    rw [World.step, if_pos hholds] at hsound
    refine h.smooth_of (holds_iff.1 hholds).2 trivial hsound fun got hdone hwanted => ?_
    have hanswer : w.answer (.call i nonblock c) = some (c, 0) := by
      rw [answer, if_pos hholds]
      rw [hdone]
    exact ((hanswers c 0 hanswer).1 hwanted rfl).2
  | resume i =>
    intro pd hpd
    obtain ⟨hfresh, hhas⟩ := h.fresh i pd hpd
    rw [World.step, hpd] at hsound
    refine h.smooth_of hhas hfresh hsound fun got hdone hwanted => ?_
    have hanswer : w.answer (.resume i) = some (pd.call, 0) := by
      rw [answer, hpd]
      dsimp only
      rw [hdone]
    exact ((hanswers pd.call 0 hanswer).1 hwanted rfl).2
  | dup i side => trivial
  | close i side => trivial
  | fork i j => trivial

end

theorem create_procs {buf : Nat → UInt8} (hj : j ≠ 0) : (create buf).procs j = {} := if_neg hj

theorem create_inv (buf : Nat → UInt8) : Inv (create buf) where
  tidy := RingBuffer.tidy_empty buf (by decide)
  reads := by
    rw [tally, Finset.sum_eq_single 0 (fun j _ hj => by rw [create_procs hj])
      fun hno => absurd (Finset.mem_univ _) hno]
    rfl
  writes := by
    rw [tally, Finset.sum_eq_single 0 (fun j _ hj => by rw [create_procs hj])
      fun hno => absurd (Finset.mem_univ _) hno]
    rfl
  inUse := iff_of_true rfl (Nat.succ_pos 1)
  sound := ⟨List.prefix_rfl, fun _ => rfl⟩
  fresh j pd hpd := by
    by_cases hj : j = 0
    · rw [hj] at hpd
      exact absurd hpd (by simp [create])
    · rw [create_procs hj] at hpd
      cases hpd

end World

/-- **Main theorem.**  Whoever reads and writes through whichever descriptors: in every state what
has been delivered is the beginning of what has been reported as written, with the rest in the pipe,
and every answer is right, if and only if no call stops in the middle. -/
theorem pipe_iff (buf : Nat → UInt8) (es : List Event) :
    (Always World.step World.Sound (World.create buf) es ∧ EachStep World.step World.Answers
      (World.create buf) es) ↔ EachStep World.step World.Smooth (World.create buf) es :=
  always_and_eachStep_iff (fun _ h => h.sound) (fun _ _ h hq => h.answers hq)
    (fun _ _ h hq => h.step hq) (fun _ e h hp hr => h.smooth e hp hr) (World.create_inv buf)

/-! ### A byte that nobody gets, and one that nobody has sent -/

/-- There is one byte for two parts of a `readv`; the rest comes when the call has been parked. -/
def parkedInTheMiddle : List Event :=
  [.fork 0 1, .call 1 false (.write (some { data := [65] })),
    .call 0 false (.readv true [{ len := 1 }, { len := 1 }]),
    .call 1 false (.write (some { data := [66, 67] })), .resume 0]

/-- The second part of a `writev` is not mapped. -/
def unmappedInTheMiddle : List Event :=
  [.call 0 false (.writev true [{ data := [65] }, { data := [66], mapped := false }]),
    .call 0 false (.read { len := 1 })]

theorem stream_broken :
    ¬ (Traces.run World.step (World.create fun _ => 0) parkedInTheMiddle).Sound ∧
      ¬ (Traces.run World.step (World.create fun _ => 0) unmappedInTheMiddle).Sound := by
  constructor
  · intro h
    exact absurd h.delivered (by decide +kernel)
  · intro h
    exact absurd h.delivered (by decide +kernel)

end IndexOS.Pipes
