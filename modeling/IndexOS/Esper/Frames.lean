import IndexOS.Esper.Dispositions

/-!
# Signal frames

`linux_deliver_signal_locked` saves the interrupted context and the signal mask in a frame on the
user stack, and `rt_sigreturn` takes them back from there.  The vector registers are not saved, so
whatever the handler leaves in them stays; and `rt_sigprocmask`, which delivers what its new mask
lets through, does so before it has put its result into x0, so that the program gets back its
argument `how`.

* `Task` — a program with the trap frame of its CPU and its memory, of which only aligned words
  matter here;
* `saveFrame`, `Task.deliver` — a handler is entered; `Task.rtSigreturn` — it returns;
* `Site` — the places that deliver a signal to the program that is running, and what x0 holds there;
* `Runs` — a program runs, handlers of further signals included, and leaves the frames alone that
  are in use;
* `Restored` — the program goes on where it was; `El0` — no frame gives it more than a program may
  have.
-/

set_option autoImplicit false

namespace IndexOS.Espers

/-- The words of a program's memory, by address. -/
abbrev Words := UInt64 → UInt64

structure Task where
  esper : Esper
  live : Ctx
  mem : Words

/-- The address lies in the frame at `base`, which has `kFrameSize` bytes. -/
def InFrame (base a : UInt64) : Prop := base ≤ a ∧ a.toNat < base.toNat + 0x600

instance (base a : UInt64) : Decidable (InFrame base a) := by unfold InFrame; infer_instance

/-- The word of a frame at an offset: `si_signo`, `uc_sigmask` at 128 + 40, and `uc_mcontext` at 128
+ 168 with the registers after its first word. -/
def frameWord (sig : Nat) (mask : Sigset) (c : Ctx) (off : Nat) : UInt64 :=
  if off = 0 then UInt64.ofNat sig
  else if off = 168 then ⟨mask⟩
  else if h : 304 ≤ off ∧ off < 552 then c.regs ⟨(off - 304) / 8, by omega⟩
  else if off = 552 then c.sp
  else if off = 560 then c.elr
  else if off = 568 then c.spsr
  else 0

/-- The writes of `linux_deliver_signal_locked` -/
def saveFrame (m : Words) (base : UInt64) (sig : Nat) (mask : Sigset) (c : Ctx) : Words := fun a =>
  if InFrame base a then frameWord sig mask c (a.toNat - base.toNat) else m a

namespace Task

/-- The handler of the signal is entered, if it gets that far.  The frame has to fit below the stack
pointer: an address that has wrapped around is none of the program's. -/
def deliver (t : Task) (sig : Nat) (stackOk : Bool) : Option Task :=
  let d := deliverSignalLocked t.esper sig (some t.live) (stackOk && 0x600 ≤ t.live.sp)
  if d.ok ∧ ¬ intercepted t.esper sig ∧ ¬ heldBack t.esper sig then
    some
      { esper := d.esper
        live := d.frame.getD t.live
        mem := saveFrame t.mem ((t.live.sp - 0x600) &&& (0 - 16)) sig (accepted t.esper sig).sigMask
          t.live }
  else none

/-- The context that a frame holds. -/
def savedCtx (t : Task) : Ctx :=
  { t.live with
    regs := fun r => t.mem (t.live.sp + UInt64.ofNat (304 + 8 * r.val))
    sp := t.mem (t.live.sp + 552)
    elr := t.mem (t.live.sp + 560)
    spsr := t.mem (t.live.sp + 568) }

/-- `rt_sigreturn` up to the signals that are pending; a frame that cannot be read is `-EFAULT`. -/
def rtSigreturn (t : Task) (readable : Bool) : Task :=
  if readable then
    let d := Drain.sigreturn (t.mem (t.live.sp + 168)).toBitVec t.savedCtx
    { t with esper := d.enter t.esper, live := d.frame t.live }
  else { t with live := t.live.setX0 (0 - 14) }

end Task

/-! ## Where a signal is delivered -/

/-- User code that is preempted, or goes on after `rt_sigreturn`; `kill` to oneself; a wait that is
interrupted (`rt_sigsuspend`, `ppoll`, `pselect6`, `epoll_pwait`, a read of the console); and
`rt_sigprocmask`. -/
inductive Site where
  | code
  | kill
  | wait
  | sigprocmask
deriving DecidableEq

/-- The trap frame when the signal is delivered. -/
def Site.frame (c : Ctx) : Site → Ctx
  | .code | .sigprocmask => c
  | .kill => c.setX0 0
  | .wait => c.setX0 eintr

/-- What the interrupted program is to find in x0: its own, or the result of the call. -/
def Site.result (c : Ctx) : Site → UInt64
  | .code => c.x0
  | .kill | .sigprocmask => 0
  | .wait => eintr

def Task.interrupt (t : Task) (s : Site) (sig : Nat) (stackOk : Bool) : Option Task :=
  { t with live := s.frame t.live }.deliver sig stackOk

/-- The program runs: its code and the system calls it makes do anything but write into a frame in
use, and signals are handled on the stack below those frames, in handlers that come back with the
stack pointer they started with. -/
inductive Runs : List UInt64 → Task → Task → Prop
  | stop (frames : List UInt64) (t : Task) : Runs frames t t
  | code {frames : List UInt64} {t u v : Task}
      (h : ∀ b ∈ frames, ∀ a, InFrame b a → u.mem a = t.mem a)
      (rest : Runs frames u v) : Runs frames t v
  | signal {frames : List UInt64} {t u v w : Task} {s : Site} {sig : Nat} {ok : Bool}
      (below : ∀ b ∈ frames, t.live.sp ≤ b) (enter : t.interrupt s sig ok = some u)
      (handler : Runs (u.live.sp :: frames) u v) (sp : v.live.sp = u.live.sp)
      (rest : Runs frames (v.rtSigreturn true) w) : Runs frames t w

/-- The signals that the program has blocked, but for the one call that waits with another mask. -/
def Esper.ownMask (e : Esper) : Sigset :=
  (if e.waitSigsuspend then e.sigsuspendSavedMask else e.sigMask) &&& ~~~kNonmaskable

/-- The program goes on as if there had been no signal. -/
structure Restored (t : Task) (s : Site) (w : Task) : Prop where
  x0 : w.live.x0 = s.result t.live
  regs : ∀ r, r ≠ 0 → w.live.regs r = t.live.regs r
  sp : w.live.sp = t.live.sp
  pc : w.live.elr = t.live.elr
  nzcv : w.live.spsr &&& 0xF0000000 = t.live.spsr &&& 0xF0000000
  vectors : w.live.fpsimd = t.live.fpsimd
  mask : w.esper.sigMask = t.esper.ownMask

/-- EL0 with interrupts enabled, and neither SIGKILL nor SIGSTOP blocked. -/
structure Task.El0 (t : Task) : Prop where
  mode : t.live.spsr &&& 0xF = 0
  irq : t.live.spsr &&& 0x80 = 0
  mask : t.esper.sigMask &&& kNonmaskable = 0

/-! ## The frame -/

variable {t u v : Task} {s : Site} {sig : Nat} {ok : Bool} {frames : List UInt64}

/-- What it takes to enter a handler. -/
theorem Task.deliver_some (h : t.deliver sig ok = some u) :
    0x600 ≤ t.live.sp ∧ u.esper.sigMask &&& kNonmaskable = 0 ∧ u.live = handlerCtx t.esper sig
      t.live ∧ u.mem = saveFrame t.mem u.live.sp sig (accepted t.esper sig).sigMask t.live := by
  rw [deliver] at h
  split at h
  next hd =>
    have hdel := deliverSignalLocked_delivers t.esper sig (some t.live) (ok && 0x600 ≤ t.live.sp)
    generalize deliverSignalLocked t.esper sig (some t.live) (ok && 0x600 ≤ t.live.sp) =
      d at hdel hd h
    obtain ⟨hok, hi, hh⟩ := hd
    obtain rfl := Option.some.inj h
    cases hdel with
    | refused | default | fails => cases hok
    | trapped _ hi' => exact absurd hi' hi
    | held _ _ hh' => exact absurd hh' hh
    | enters _ _ _ _ hs =>
      rw [Bool.and_eq_true, decide_eq_true_iff] at hs
      refine ⟨hs.2, ?_, rfl, rfl⟩
      rw [inHandler]
      simp [BitVec.and_assoc]
  · cases h

theorem toNat_frameBase {sp : UInt64} (h : 0x600 ≤ sp) :
    ((sp - 0x600) &&& (0 - 16)).toNat + 0x600 ≤ sp.toNat := by
  have hle : ((sp - 0x600) &&& (0 - 16)).toNat ≤ (sp - 0x600).toNat := Nat.and_le_left
  rw [UInt64.toNat_sub_of_le _ _ h] at hle
  have := UInt64.le_iff_toNat_le.1 h
  simp at *
  omega

theorem Site.frame_sp (c : Ctx) (s : Site) : (s.frame c).sp = c.sp := by cases s <;> rfl

theorem Task.interrupt_base (h : t.interrupt s sig ok = some u) :
    u.live.sp.toNat + 0x600 ≤ t.live.sp.toNat := by
  obtain ⟨hfit, -, hlive, -⟩ := deliver_some h
  rw [hlive]
  have := toNat_frameBase hfit
  rw [← Site.frame_sp t.live s]
  exact this

/-- **Frames in use are kept.** -/
theorem Runs.kept (h : Runs frames t u) : ∀ b ∈ frames, ∀ a, InFrame b a → u.mem a = t.mem a := by
  induction h with
  | stop => exact fun _ _ _ _ => rfl
  | code hcode _ ih => exact fun b hb a ha => (ih b hb a ha).trans (hcode b hb a ha)
  | @signal frames t u v w s sig ok below enter _ _ _ ihHandler ihRest =>
    intro b hb a ha
    rw [ihRest b hb a ha]
    show v.mem a = t.mem a
    rw [ihHandler b (List.mem_cons_of_mem _ hb) a ha]
    obtain ⟨-, -, -, hmem⟩ := Task.deliver_some enter
    rw [hmem, saveFrame, if_neg]
    -- the new frame ends below the stack pointer, and the stack pointer is below the frames
    rintro ⟨-, hlt⟩
    have hbase := Task.interrupt_base enter
    have hsp := UInt64.le_iff_toNat_le.1 (below b hb)
    have hle := UInt64.le_iff_toNat_le.1 ha.1
    omega

section
variable (enter : t.interrupt s sig ok = some u) (run : Runs (u.live.sp :: frames) u v)
include enter run

/-- A word of the frame when the handler is done. -/
theorem Runs.frameWord {off : Nat} (hoff : off < 0x600) :
    v.mem (u.live.sp + UInt64.ofNat off) =
      Espers.frameWord sig (accepted t.esper sig).sigMask (s.frame t.live) off := by
  have hbase := Task.interrupt_base enter
  have hlt := t.live.sp.toNat_lt
  have haddr : (u.live.sp + UInt64.ofNat off).toNat = u.live.sp.toNat + off := by
    rw [UInt64.toNat_add, UInt64.toNat_ofNat']
    omega
  have hin : InFrame u.live.sp (u.live.sp + UInt64.ofNat off) := by
    refine ⟨UInt64.le_iff_toNat_le.2 ?_, ?_⟩ <;> omega
  obtain ⟨-, -, -, hmem⟩ := Task.deliver_some enter
  rw [run.kept _ List.mem_cons_self _ hin, hmem, saveFrame, if_pos hin, haddr,
    Nat.add_sub_cancel_left]

theorem Runs.regs (r : Fin 31) :
    v.mem (u.live.sp + UInt64.ofNat (304 + 8 * r.val)) = (s.frame t.live).regs r := by
  rw [run.frameWord enter (by omega), Espers.frameWord, if_neg (by omega), if_neg (by omega),
    dif_pos (by omega)]
  congr 1
  exact Fin.ext (by simp)

end

theorem accepted_sigMask (e : Esper) (sig : Nat) :
    (accepted e sig).sigMask &&& ~~~kNonmaskable = e.ownMask := by
  rw [accepted, endSuspend, passTracer, Esper.ownMask]
  split <;> split <;> simp_all

theorem Site.x0_iff (c : Ctx) (s : Site) :
    (s.frame c).x0 = s.result c ↔ (s = .sigprocmask → c.x0 = 0) := by
  cases s <;> simp [frame, result, Ctx.x0, Ctx.setX0]

theorem el0_deliver (h : t.deliver sig ok = some u) : u.El0 := by
  obtain ⟨-, hmask, hlive, -⟩ := Task.deliver_some h
  have hspsr : u.live.spsr = 0x340 := by
    rw [hlive]
    rfl
  refine ⟨?_, ?_, hmask⟩ <;> rw [hspsr] <;> decide

/-- Of the PSTATE in a frame only the flags are kept. -/
theorem sanitized_and {x m k : UInt64} (hk : 0xF0000000 &&& m = k)
    (hm : kSpsrEl0Handler &&& ~~~0xF0000000 &&& m = 0) :
    ((x &&& 0xF0000000) ||| (kSpsrEl0Handler &&& ~~~0xF0000000)) &&& m = x &&& k := by
  have hsplit : ((x &&& 0xF0000000) ||| (kSpsrEl0Handler &&& ~~~0xF0000000)) &&& m =
      (x &&& (0xF0000000 &&& m)) ||| (kSpsrEl0Handler &&& ~~~0xF0000000 &&& m) := by
    apply UInt64.toNat_inj.1
    simp only [UInt64.toNat_and, UInt64.toNat_or, Nat.and_or_distrib_right, Nat.and_assoc]
  rw [hsplit, hk, hm, UInt64.or_zero]

theorem el0_rtSigreturn (h : t.El0) (readable : Bool) : (t.rtSigreturn readable).El0 := by
  rw [Task.rtSigreturn]
  split
  · refine ⟨(sanitized_and (by decide) (by decide)).trans UInt64.and_zero,
      (sanitized_and (by decide) (by decide)).trans UInt64.and_zero, ?_⟩
    simp [Drain.enter, BitVec.and_assoc]
  · exact ⟨h.mode, h.irq, h.mask⟩

/-- **Main theorem.**  A program that a signal interrupts, at any depth of handlers, goes on as it
was exactly if its handler leaves the vector registers alone and it was not in an `rt_sigprocmask`
whose first argument is other than 0; and no frame, whatever it holds, gets it out of EL0, masks
interrupts or blocks SIGKILL or SIGSTOP. -/
theorem restored_iff (enter : t.interrupt s sig ok = some u) (run : Runs (u.live.sp :: frames) u v)
    (hsp : v.live.sp = u.live.sp) :
    (Restored t s (v.rtSigreturn true) ∧ ∀ (w : Task) (readable : Bool), w.El0 →
      (w.rtSigreturn readable).El0 ∧
        ∀ sig' ok' x, (w.rtSigreturn readable).deliver sig' ok' = some x → x.El0) ↔
    v.live.fpsimd = t.live.fpsimd ∧ (s = .sigprocmask → t.live.x0 = 0) := by
  have hx0 : (v.rtSigreturn true).live.x0 = (s.frame t.live).x0 := by
    show v.mem (v.live.sp + UInt64.ofNat (304 + 8 * 0)) = _
    rw [hsp]
    exact run.regs enter 0
  constructor
  · rintro ⟨h, -⟩
    exact ⟨h.vectors, (s.x0_iff t.live).1 (hx0.symm.trans h.x0)⟩
  · rintro ⟨hvectors, hhow⟩
    refine ⟨⟨hx0.trans ((s.x0_iff t.live).2 hhow), fun r hr => ?_, ?_, ?_, ?_, hvectors, ?_⟩,
      fun w readable hw =>
      ⟨el0_rtSigreturn hw readable, fun _ _ _ h => el0_deliver h⟩⟩
    · show v.mem (v.live.sp + UInt64.ofNat (304 + 8 * r.val)) = _
      rw [hsp, run.regs enter]
      cases s <;> simp [Site.frame, Ctx.setX0, hr]
    · show v.mem (v.live.sp + UInt64.ofNat 552) = _
      rw [hsp, run.frameWord enter (by decide)]
      cases s <;> rfl
    · show v.mem (v.live.sp + UInt64.ofNat 560) = _
      rw [hsp, run.frameWord enter (by decide)]
      cases s <;> rfl
    · refine (sanitized_and (k := 0xF0000000) (by decide) (by decide)).trans ?_
      show v.mem (v.live.sp + UInt64.ofNat 568) &&& _ = _
      rw [hsp, run.frameWord enter (by decide)]
      cases s <;> rfl
    · show (v.mem (v.live.sp + UInt64.ofNat 168)).toBitVec &&& _ = _
      rw [hsp, run.frameWord enter (by decide)]
      exact accepted_sigMask t.esper sig

/-! ## The condition met, and not met -/

/-- A program with a handler for every signal. -/
def handling : Task where
  esper := { abi := .linux, sigHandler := fun _ => 0x1000, sigRestorer := fun _ => 0x2000 }
  live := { regs := fun r => UInt64.ofNat (r.val + 2), sp := 0x10000, elr := 0x400000, spsr :=
    0x60000000 }
  mem := fun _ => 0

/-- The handler of SIGUSR1 is entered. -/
def handlingUsr1 (s : Site) : Task := (handling.interrupt s 10 true).getD handling

theorem handlingUsr1_eq (s : Site) : handling.interrupt s 10 true = some (handlingUsr1 s) := by
  cases s <;> rfl

theorem restored_code : Restored handling .code ((handlingUsr1 .code).rtSigreturn true) :=
  ((restored_iff (handlingUsr1_eq .code) (.stop [_] _) rfl).2 ⟨rfl, by decide⟩).1

/-- A handler that uses a vector register; and a handler that `rt_sigprocmask(SIG_SETMASK, …)`
runs. -/
theorem not_restored :
    (∃ v, Runs [(handlingUsr1 .code).live.sp] (handlingUsr1 .code) v ∧
      v.live.sp = (handlingUsr1 .code).live.sp ∧ ¬ Restored handling .code (v.rtSigreturn true)) ∧
    ¬ Restored handling .sigprocmask ((handlingUsr1 .sigprocmask).rtSigreturn true) := by
  refine ⟨⟨{ handlingUsr1 .code with live := { (handlingUsr1 .code).live with fpsimd := 1 } },
    ?_, rfl,
    fun h => nomatch h.vectors⟩, fun h => absurd h.x0 (by decide +kernel)⟩
  refine .code ?_ (.stop _ _)
  exact fun _ _ _ _ => rfl

end IndexOS.Espers
