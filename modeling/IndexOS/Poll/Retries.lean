import IndexOS.Poll.Readiness

/-!
# Do the calls come to an end?

A call that has found nothing to do looks once more before it parks, with the lock held, and tries
again if the object has become ready.  With nobody else at work that makes one retry at most,
provided that an attempt at an object that is found ready comes to something.  But the look asks for
less than the attempt.  A pipe is ready when it has any room, whatever has to be stored at once; a
local socket or a terminal is ready when it has bytes, also for a call that has no space for them,
and for one on a datagram socket, which takes none.

* `Call`, `World.attempt` — one attempt at a call;
* `World.probe`, `World.round` — the look before parking, and what both come to;
* `World.rounds` — the loop;
* `World.OneRetry` — what is asked of it;
* `retries_iff` — the main theorem; `retries_hang` — the loops that never end.
-/

set_option autoImplicit false

namespace IndexOS.Poll

open Pipes SisterRelay

/-- A call of the dispatcher.  `readv` and `writev` make one for each part that is not empty. -/
inductive Call where
  | read (len : Nat)
  | write (buf : List UInt8)

inductive Round where
  | answers
  | parks
  | again
deriving DecidableEq

namespace World

/-- What a call leaves, and whether it has come to something. -/
def attempt (w : World) (d : Fd) : Call → World × Bool
  | .read len => ((w.fdRead len d).1, (w.fdRead len d).2 ≠ .waits)
  | .write buf => ((w.fdWrite buf d).1, (w.fdWrite buf d).2.isSome)

/-- `aiwass_readable`, `aiwass_writable`, `channel_readable`, `pty_master_readable`,
`pty_slave_readable`; the other calls park without a look. -/
def probe (w : World) : Fd → Call → Bool
  | .pipeRead _, .read _ => w.pipe.readable
  | .pipeWrite _, .write _ => w.pipe.writable
  | .unixSock i, .read _ => incPoll w.chans i &&& 0x1 ≠ 0
  | .ptyMaster, .read _ => pollMaster w.relay &&& 0x1 ≠ 0
  | .ptySlave, .read _ => pollSlave w.relay &&& 0x1 ≠ 0
  | _, _ => false

/-- An attempt, and the look after one that has come to nothing. -/
def round (w : World) (d : Fd) (c : Call) : World × Round :=
  let r := w.attempt d c
  (r.1, if r.2 then .answers else if r.1.probe d c then .again else .parks)

/-- The loop, for `n` attempts at most. -/
def rounds (d : Fd) (c : Call) : Nat → World → World × Round
  | 0, w => (w, .again)
  | n + 1, w =>
    let r := w.round d c
    if r.2 = .again then rounds d c n r.1 else r

/-- **What is asked of the loops.** They end after one retry at most, and a retry comes to
something. -/
def OneRetry (w : World) (d : Fd) (c : Call) : Prop :=
  (rounds d c 2 w).2 ≠ .again ∧
  ((w.round d c).2 = .again → ((w.round d c).1.round d c).2 = .answers)

/-- There is room for what has to be stored at once, or none at all; there is space for the bytes
that are there, and the call takes them. -/
def Clear (w : World) : Fd → Call → Prop
  | .pipeWrite nonblock, .write buf =>
    nonblock = false → w.pipe.inUse = true → 0 < w.pipe.readRefs → 0 < w.pipe.room →
      Pipes.Takes w.pipe.room buf.length
  | .unixSock i, .read len =>
    let c := w.chans.chans i
    (c.kind = .stream → 0 < c.rx.avail → c.state ≠ .peerGone → Counts len) ∧
      (c.kind = .dgram → c.rx.avail = 0 ∧ c.state ≠ .peerGone)
  | .ptyMaster, .read len => ∀ r, w.relay = some r → 0 < r.s2m.avail → Counts len
  | .ptySlave, .read len => ∀ r, w.relay = some r → 0 < r.m2s.avail → Counts len
  | _, _ => True

end World

/-! ## One round -/

open World

section Rounds

variable {w : World} {d : Fd} {c : Call} {ring : RingBuffer UInt8 kRelayRingBytes}

theorem incPoll_readable (t : Channels.World) (i : Channels.Slot) :
    incPoll t i &&& 0x1 ≠ 0 ↔
      (t.chans i).kind ≠ .free ∧ (0 < (t.chans i).rx.avail ∨ (t.chans i).state = .peerGone) := by
  rw [incPoll]
  split_ifs <;> simp_all <;> decide

theorem relay_readable (ring : RingBuffer UInt8 kRelayRingBytes) (gone : Bool) :
    SisterRelay.revents ring gone &&& 0x1 ≠ 0 ↔ 0 < ring.avail ∨ gone = true := by
  rw [SisterRelay.revents]
  split_ifs <;> simp_all <;> decide

theorem tryRead_zero {gone : Bool} (havail : 0 < ring.avail) :
    tryRead ring gone 0 = (ring, .waits) := by
  simp [tryRead, havail.ne', RingBuffer.takeN]

/-- A read that comes to nothing leaves the ring as it was, and it is not ready unless it has bytes
for which there is no space. -/
theorem tryRead_waits {gone : Bool} {cap : Nat}
    (hwaits : (tryRead ring gone cap).2 = .waits)
    (hready : revents (tryRead ring gone cap).1 gone &&& 0x1 ≠ 0) :
    0 < ring.avail ∧ cap = 0 := by
  rw [relay_readable] at hready
  rw [tryRead] at hwaits hready
  split at hwaits
  next havail => simp_all
  next havail => simp_all [Nat.pos_of_ne_zero]

theorem write_wouldBlock {p : Aiwass} {src : List UInt8}
    (h : (p.write (some src)).2 = .wouldBlock) :
    (p.write (some src)).1 = p ∧ p.inUse = true ∧ 0 < p.readRefs ∧
      (p.ring.avail = kAiwassBufSize ∨ src.length ≤ kAiwassPipeBuf ∧ p.room < src.length) := by
  rw [Aiwass.write] at h ⊢
  split_ifs at h ⊢ <;> simp_all [Nat.pos_iff_ne_zero]

/-- Where the state is not clear, a round changes nothing and the next one follows. -/
theorem round_of_not_clear (h : ¬ w.Clear d c) : w.round d c = (w, .again) := by
  cases d <;> cases c <;> try exact absurd trivial h
  case pipeWrite.write nonblock buf =>
    simp only [Clear, Takes, not_forall, not_and, not_le] at h
    obtain ⟨hblock, huse, hreaders, hroom, hsmall⟩ := h
    obtain ⟨hlen, hlt⟩ := hsmall hroom
    have havail : w.pipe.ring.avail < kAiwassBufSize := Nat.lt_of_sub_pos hroom
    have hwrite : w.pipe.write (some buf) = (w.pipe, .wouldBlock) := by
      simp [Aiwass.write, huse, hreaders.ne', havail.ne, hlen, hlt]
    simp [World.round, attempt, fdWrite, Aiwass.linuxPipeWrite, hwrite, hblock, written, probe,
      Aiwass.writable, havail]
  case unixSock.read i len =>
    have hstop : w.chans.read i len = (w.chans, none) ∧ incPoll w.chans i &&& 0x1 ≠ 0 := by
      rw [incPoll_readable, Channels.World.read]
      rw [Clear, Counts] at h
      cases hkind : (w.chans.chans i).kind <;> simp_all
      grind
    simp [World.round, attempt, fdRead, probe, hstop]
  case ptyMaster.read len =>
    simp only [Clear, not_forall] at h
    obtain ⟨r, hr, havail, hlen⟩ := h
    have hread : w.fdRead len .ptyMaster = (w, .waits) := by
      simp only [fdRead, hr]
      rw [not_not.1 hlen, tryRead_zero havail]
      exact congrArg (·, _) (by rw [← hr])
    have hready := (relay_readable r.s2m r.slaveGone).2 (.inl havail)
    simp [World.round, attempt, hread, probe, hr, pollMaster, hready]
  case ptySlave.read len =>
    simp only [Clear, not_forall] at h
    obtain ⟨r, hr, havail, hlen⟩ := h
    have hread : w.fdRead len .ptySlave = (w, .waits) := by
      simp only [fdRead, hr]
      rw [not_not.1 hlen, tryRead_zero havail]
      exact congrArg (·, _) (by rw [← hr])
    have hready := (relay_readable r.m2s r.masterGone).2 (.inl havail)
    simp [World.round, attempt, hread, probe, hr, pollSlave, hready]

/-- Where the state is clear, no round is followed by another. -/
theorem round_of_clear (h : w.Clear d c) : (w.round d c).2 ≠ .again := by
  intro hagain
  rw [World.round] at hagain
  have hnothing : (w.attempt d c).2 = false := by grind
  have hready : (w.attempt d c).1.probe d c = true := by grind
  clear hagain
  cases d <;> cases c <;> try cases hready
  case pipeRead.read nonblock len =>
    simp only [attempt, fdRead, probe, Aiwass.linuxPipeRead, Aiwass.read,
      Aiwass.readable] at hnothing hready
    split_ifs at hnothing hready <;> simp_all [received]
  case pipeWrite.write nonblock buf =>
    obtain ⟨rfl, hblock⟩ : nonblock = false ∧ (w.pipe.write (some buf)).2 = .wouldBlock := by
      simp only [attempt, fdWrite, Aiwass.linuxPipeWrite] at hnothing
      cases hmoved : (w.pipe.write (some buf)).2 <;> cases nonblock <;> simp_all [written]
    obtain ⟨hsame, huse, hreaders, hfull⟩ := write_wouldBlock hblock
    have havail : w.pipe.ring.avail < kAiwassBufSize := by
      simpa [attempt, fdWrite, probe, Aiwass.linuxPipeWrite, hblock, hsame, Aiwass.writable, huse,
        hreaders.ne']
        using hready
    obtain ⟨hsmall, hlt⟩ := hfull.resolve_left havail.ne
    exact absurd ((h rfl huse hreaders (Nat.sub_pos_of_lt havail)).2 hsmall) (Nat.not_le.2 hlt)
  case unixSock.read i len =>
    have hstay : w.chans.read i len = (w.chans, none) := by
      simp only [attempt, fdRead, Channels.World.read] at hnothing ⊢
      split_ifs at hnothing ⊢ <;> simp_all
    simp only [attempt, fdRead, probe, hstay, decide_eq_true_eq, incPoll_readable] at hready
    rw [Channels.World.read] at hstay
    rw [Clear, Counts] at h
    cases hkind : (w.chans.chans i).kind <;> simp_all
    grind
  case ptyMaster.read len =>
    cases hr : w.relay with
    | none =>
      rw [attempt, fdRead, hr] at hready
      simp only [probe, hr, pollMaster, decide_eq_true_eq] at hready
      exact hready rfl
    | some r =>
      simp only [attempt, fdRead, hr] at hnothing hready
      obtain ⟨havail, hzero⟩ :=
        tryRead_waits (not_not.1 (of_decide_eq_false hnothing)) (of_decide_eq_true hready)
      exact h r hr havail hzero
  case ptySlave.read len =>
    cases hr : w.relay with
    | none =>
      rw [attempt, fdRead, hr] at hready
      simp only [probe, hr, pollSlave, decide_eq_true_eq] at hready
      exact hready rfl
    | some r =>
      simp only [attempt, fdRead, hr] at hnothing hready
      obtain ⟨havail, hzero⟩ :=
        tryRead_waits (not_not.1 (of_decide_eq_false hnothing)) (of_decide_eq_true hready)
      exact h r hr havail hzero

/-- A loop that has begun to go round does so for ever. -/
theorem rounds_of_not_clear (h : ¬ w.Clear d c) (n : Nat) : rounds d c n w = (w, .again) := by
  induction n with
  | zero => rfl
  | succ n ih =>
    rw [rounds, round_of_not_clear h]
    exact ih

end Rounds

/-! ## The loops -/

/-- **Main theorem.** The loops end after one retry at most just if a pipe that has room has room
for what has to be stored at once, and a local socket or a terminal that has bytes is asked for some
and gives them. -/
theorem retries_iff (w : World) (d : Fd) (c : Call) : w.OneRetry d c ↔ w.Clear d c := by
  constructor
  · intro hends
    by_contra hclear
    exact hends.1 (by rw [rounds_of_not_clear hclear])
  · intro hclear
    have hround := round_of_clear hclear
    refine ⟨?_, fun hagain => absurd hagain hround⟩
    rw [rounds]
    simp only [hround, if_false]
    exact hround

/-- A pipe with room for one byte, a terminal to which the slave has written a byte, and a local
socket for datagrams, to which one of a single byte has come. -/
def stuck : World where
  pipe :=
    { inUse := true, readRefs := 1, writeRefs := 1
      ring := { buf := fun _ => 0, tail := kAiwassBufSize - 1, avail := kAiwassBufSize - 1 } }
  chans :=
    { chans := fun i =>
        if i = 0 then
          { kind := .dgram, state := .bound
            rx := { buf := fun n => if n = 3 then 1 else 0, tail := 5, avail := 5 } }
        else {} }
  relay := some { slaveRefs := 1, slaveEverOpened := true, s2m :=
    { buf := fun _ => 0, tail := 1, avail := 1 } }

/-- A write of two bytes to the pipe, a read of no bytes from the terminal and a read from a socket
never come to an end. -/
theorem retries_hang :
    ¬ stuck.OneRetry (.pipeWrite false) (.write [0, 0]) ∧
      ∀ n, (rounds (.pipeWrite false) (.write [0, 0]) n stuck).2 = .again ∧
        (rounds .ptyMaster (.read 0) n stuck).2 = .again ∧
        (rounds (.unixSock 0) (.read 8) n stuck).2 = .again := by
  have hpipe : ¬ stuck.Clear (.pipeWrite false) (.write [0, 0]) := by
    intro hclear
    exact absurd (hclear rfl rfl (by decide) (by decide)).2 (by decide)
  have hpty : ¬ stuck.Clear .ptyMaster (.read 0) := fun hclear => hclear _ rfl (by decide) rfl
  have hsock : ¬ stuck.Clear (.unixSock 0) (.read 8) :=
    fun hclear => absurd (hclear.2 rfl).1 (by decide)
  refine ⟨fun hends => hends.1 (by rw [rounds_of_not_clear hpipe]), fun n => ?_⟩
  rw [rounds_of_not_clear hpipe, rounds_of_not_clear hpty, rounds_of_not_clear hsock]
  exact ⟨rfl, rfl, rfl⟩

end IndexOS.Poll
