import IndexOS.Poll.Objects

/-!
# Does `poll` tell the truth?

`World.Agrees` says of a descriptor that what is reported is what the calls would do.  For pipes,
timers, signals and watches it holds whenever there is an object.  A listener is another matter: one
for TCP is reported as soon as a connection has begun, and one of the local sockets never is.  And
what is reported of writing does not look at the room there is, for the local sockets, the terminals
and the counters alike.

* `World.Agrees` — the property;
* `World.Sure` — the states in which it holds;
* `readiness_iff` — the main theorem; `readiness_wrong` — the listeners, a full ring, a full
  counter.
-/

set_option autoImplicit false

namespace IndexOS.Poll

open Traces

/-- What a call is made with: a buffer to read into, a byte to write, a number for an accepted
descriptor. -/
structure Ask where
  len : Nat
  byte : UInt8
  number : Bool

/-- A buffer of this length is large enough. -/
def Fd.least : Fd → Nat
  | .eventfd | .timerfd => 8
  | .signalfd => 128
  | .inotify => 16 + kInotifyNameCap
  | _ => 1

/-- The least that can be written: the number one to a counter. -/
def Fd.unit (d : Fd) (byte : UInt8) : List UInt8 :=
  match d with
  | .eventfd => [1, 0, 0, 0, 0, 0, 0, 0]
  | _ => [byte]

def reportsIn (mask : UInt32) : Prop := mask &&& 0x1 ≠ 0 ∨ mask &&& 0x10 ≠ 0

def reportsOut (mask : UInt32) : Prop := mask &&& 0x4 ≠ 0

instance : DecidablePred reportsIn := fun _ => inferInstanceAs (Decidable (_ ∨ _))

instance : DecidablePred reportsOut := fun _ => inferInstanceAs (Decidable (_ ≠ _))

namespace World

variable (w : World)

/-- The descriptor is for a stream or a listener, not for datagrams. -/
def stream : Fd → Prop
  | .socket i => (w.ants.ants i).proto ≠ .udp
  | .unixSock i => (w.chans.chans i).kind ≠ .dgram
  | _ => True

def listens : Fd → Bool
  | .socket i => (w.ants.ants i).tcpState = .listen
  | .unixSock i => (w.chans.chans i).state = .listen
  | _ => false

/-- What a call that takes something comes to. -/
def taking (ask : Ask) (d : Fd) : Outcome :=
  if w.listens d then (w.accept ask.number d).2 else (w.fdRead ask.len d).2

def reads : Fd → Prop
  | .pipeWrite _ => False
  | _ => True

/-- The descriptor can be written, and nobody has closed the other end. -/
def peerOpen : Fd → Prop
  | .pipeWrite _ => w.pipe.inUse = true ∧ 0 < w.pipe.readRefs
  | .unixSock i => ∃ p, (w.chans.chans i).peer = some p ∧ (w.chans.chans p).kind ≠ .free
  | .ptyMaster => ∃ r, w.relay = some r ∧ 0 < r.slaveRefs
  | .ptySlave => ∃ r, w.relay = some r ∧ 0 < r.masterRefs
  | .socket _ | .eventfd => True
  | .pipeRead _ | .timerfd | .signalfd | .inotify => False

/-- A call that writes stores what it is given. -/
def stores (byte : UInt8) (d : Fd) : Prop :=
  match d with
  | .eventfd => ∃ e e', w.event = some e ∧ (w.fdWrite (d.unit byte) d).1.event = some e' ∧
    e'.counter.toNat = e.counter.toNat + 1
  | _ => (w.fdWrite (d.unit byte) d).2 = some 1

/-- **What is asked of `poll`.** A descriptor is reported for reading just if something could be
taken from it at once, and for writing, while the other end is open, just if something could be
stored. -/
def Agrees (d : Fd) (ask : Ask) : Prop :=
  w.stream d →
    (reads d → d.least ≤ ask.len → (reportsIn (w.revents d) ↔ (w.taking ask d).Ready)) ∧
    (w.peerOpen d → (reportsOut (w.revents d) ↔ w.stores ask.byte d))

/-! ## When it does as it is asked -/

/-- A length that is not a multiple of 4 GiB. -/
def Counts (len : Nat) : Prop := len % 2 ^ 32 ≠ 0

def SureIn (ask : Ask) : Fd → Prop
  | .socket i =>
    let a := w.ants.ants i
    a.proto = .tcp ∧
      if a.tcpState = .listen then
        a.acceptQueue ≠ [] ∨ 0 < a.rx.avail ∨ a.peerFin = true → (w.ants.acceptable i).isSome = true
      else
        (a.tcpState = .closed → 0 < a.rx.avail ∨ a.peerFin = true) ∧
          (0 < a.rx.avail → Counts ask.len ∨ a.peerFin = true ∨ a.tcpState = .reset)
  | .unixSock i =>
    let c := w.chans.chans i
    c.kind = .stream ∧
      if c.state = .listen then (c.acceptQueue ≠ [] ↔ 0 < c.rx.avail)
      else 0 < c.rx.avail → Counts ask.len ∨ c.state = .peerGone
  | .eventfd => w.event.isSome = true
  | .timerfd => w.timer.isSome = true
  | .signalfd => w.signal.isSome = true
  | .inotify => w.watch.isSome = true
  | .ptyMaster => ∀ r, w.relay = some r → 0 < r.s2m.avail → Counts ask.len
  | .ptySlave => ∀ r, w.relay = some r → 0 < r.m2s.avail → Counts ask.len
  | .pipeRead _ | .pipeWrite _ => True

def SureOut (byte : UInt8) : Fd → Prop
  | .unixSock i => ∀ p, (w.chans.chans i).peer = some p → (w.chans.chans i).kind = .stream →
    (w.chans.chans i).state = .connected → 0 < (w.chans.chans p).room
  | .eventfd => ∃ e, w.event = some e ∧ e.counter < EventFd.most
  | .ptyMaster => ∀ r, w.relay = some r → r.m2s.avail < kRelayRingBytes
  | .ptySlave => ∀ r, w.relay = some r → (r.post byte).length ≤ kRelayRingBytes - r.s2m.avail
  | _ => True

/-- The states in which what is reported is right. -/
def Sure (d : Fd) (ask : Ask) : Prop :=
  w.stream d → (reads d → d.least ≤ ask.len → w.SureIn ask d) ∧
    (w.peerOpen d → w.SureOut ask.byte d)

end World

/-! ## Masks -/

theorem or_and_eq (a b c : UInt32) : (a ||| b) &&& c = (a &&& c) ||| (b &&& c) := by
  apply UInt32.toNat_inj.1
  simp only [UInt32.toNat_and, UInt32.toNat_or, Nat.and_or_distrib_right]

@[simp]
theorem reportsIn_or (a b : UInt32) : reportsIn (a ||| b) ↔ reportsIn a ∨ reportsIn b := by
  simp only [reportsIn, or_and_eq, ne_eq, UInt32.or_eq_zero_iff]
  tauto

@[simp]
theorem reportsOut_or (a b : UInt32) : reportsOut (a ||| b) ↔ reportsOut a ∨ reportsOut b := by
  simp only [reportsOut, or_and_eq, ne_eq, UInt32.or_eq_zero_iff]
  tauto

@[simp]
theorem reportsIn_ite (c : Prop) [Decidable c] (a b : UInt32) :
    reportsIn (if c then a else b) ↔ if c then reportsIn a else reportsIn b := by
  split <;> rfl

@[simp]
theorem reportsOut_ite (c : Prop) [Decidable c] (a b : UInt32) :
    reportsOut (if c then a else b) ↔ if c then reportsOut a else reportsOut b := by
  split <;> rfl

@[simp]
theorem reportsIn_pollin : reportsIn 0x1 := by decide

@[simp]
theorem reportsIn_pollhup : reportsIn 0x10 := by decide

@[simp]
theorem not_reportsIn_pollout : ¬ reportsIn 0x4 := by decide

@[simp]
theorem not_reportsIn_zero : ¬ reportsIn 0 := by decide

@[simp]
theorem not_reportsIn_pollnval : ¬ reportsIn 0x20 := by decide

@[simp]
theorem reportsOut_pollout : reportsOut 0x4 := by decide

@[simp]
theorem not_reportsOut_pollin : ¬ reportsOut 0x1 := by decide

@[simp]
theorem not_reportsOut_pollhup : ¬ reportsOut 0x10 := by decide

@[simp]
theorem not_reportsOut_zero : ¬ reportsOut 0 := by decide

/-! ## Reading -/

variable {w : World} {ask : Ask}

theorem pipe_in (nonblock : Bool) (len : Nat) :
    reportsIn (w.revents (.pipeRead nonblock)) ↔ (w.fdRead len (.pipeRead nonblock)).2.Ready := by
  simp only [World.revents, World.fdRead, Pipes.Aiwass.linuxPipeRead, Pipes.Aiwass.read,
    Pipes.Aiwass.readable]
  by_cases huse : w.pipe.inUse = true
  · by_cases havail : w.pipe.ring.avail = 0
    · by_cases hwriters : 0 < w.pipe.writeRefs
      · have hne : w.pipe.writeRefs ≠ 0 := Nat.ne_of_gt hwriters
        cases nonblock <;> simp [huse, havail, hwriters, hne, World.received, Outcome.Ready]
      · have hzero : w.pipe.writeRefs = 0 := by omega
        simp [huse, havail, hzero, World.received, Outcome.Ready]
    · have hpos : 0 < w.pipe.ring.avail := Nat.pos_of_ne_zero havail
      simp [huse, havail, hpos, World.received, Outcome.Ready]
  · simp [huse, World.received, Outcome.Ready]

section Sockets

open Antennas

variable {i : Antennas.Slot}

theorem antennaPoll_in {t : Table} (htcp : (t.ants i).proto = .tcp) :
    reportsIn (World.antennaPoll t i) ↔
      0 < (t.ants i).rx.avail ∨ ((t.ants i).tcpState = .listen ∧ (t.ants i).acceptQueue ≠ []) ∨
        (t.ants i).peerFin = true ∨ (t.ants i).tcpState = .closed ∨
        (t.ants i).tcpState = .reset := by
  have hvalid : t.valid i = true := by simp [Table.valid, htcp]
  simp only [World.antennaPoll, hvalid]
  simp [List.length_pos_iff]
  grind

/-- A connection can be accepted if there is one that is established. -/
theorem accept_socket_ready (htcp : (w.ants.ants i).proto = .tcp)
    (hlisten : (w.ants.ants i).tcpState = .listen)
    (number : Bool) :
    (w.accept number (.socket i)).2.Ready ↔ (w.ants.acceptable i).isSome = true := by
  have hvalid : w.ants.valid i = true := by simp [Table.valid, htcp]
  simp only [World.accept, Table.tcpTryAccept, hvalid, htcp, hlisten]
  cases w.ants.acceptable i with
  | none => simp [Outcome.Ready]
  | some c => cases number <;> simp [Outcome.Ready]

/-- Bytes can be read, or the end of the stream. -/
theorem read_socket_ready (htcp : (w.ants.ants i).proto = .tcp) (len : Nat) :
    (w.fdRead len (.socket i)).2.Ready ↔
      (World.Counts len ∧ 0 < (w.ants.ants i).rx.avail) ∨ (w.ants.ants i).peerFin = true ∨
        (w.ants.ants i).tcpState = .reset := by
  have hvalid : w.ants.valid i = true := by simp [Table.valid, htcp]
  simp only [World.fdRead, Table.tcpTryRecv, hvalid, htcp, Antenna.take, World.Counts]
  by_cases havail : (w.ants.ants i).rx.avail = 0
  · simp [havail, World.recvOutcome]
    split <;> simp_all [Outcome.Ready]
  · simp [havail, World.recvOutcome, RingBuffer.length_takeN, Outcome.Ready]
    grind

theorem socket_in (hstream : w.stream (.socket i)) :
    (reportsIn (w.revents (.socket i)) ↔ (w.taking ask (.socket i)).Ready) ↔ w.SureIn ask
    (.socket i) := by
  rw [World.revents, World.taking, World.SureIn]
  by_cases htcp : (w.ants.ants i).proto = .tcp
  · have hsome : (w.ants.acceptable i).isSome = true → (w.ants.ants i).acceptQueue ≠ [] := by
      intro hsome hnil
      rw [Table.acceptable, hnil] at hsome
      cases hsome
    rw [antennaPoll_in htcp]
    by_cases hlisten : (w.ants.ants i).tcpState = .listen
    · have hlistens : w.listens (.socket i) = true := by simp [World.listens, hlisten]
      rw [if_pos hlistens, accept_socket_ready htcp hlisten]
      simp only [hlisten]
      grind
    · have hlistens : ¬ w.listens (.socket i) = true := by simp [World.listens, hlisten]
      rw [if_neg hlistens, read_socket_ready htcp]
      simp only [hlisten]
      grind
  · have hfree : (w.ants.ants i).proto = .free := by
      have : (w.ants.ants i).proto ≠ .udp := hstream
      cases hproto : (w.ants.ants i).proto <;> grind
    have hvalid : w.ants.valid i = false := by simp [Table.valid, hfree]
    have hwaits : ¬ (if w.listens (.socket i) then (w.accept ask.number (.socket i)).2
        else (w.fdRead ask.len (.socket i)).2).Ready := by
      split <;> simp [World.accept, World.fdRead, Table.tcpTryAccept, Table.tcpTryRecv, hvalid,
        World.recvOutcome, Outcome.Ready]
    have hpoll : reportsIn (World.antennaPoll w.ants i) := by simp [World.antennaPoll, hvalid]
    simp only [hpoll, hwaits, htcp, false_and, iff_false, not_true]

end Sockets

open World

section Channels

open Channels

variable {i : Channels.Slot}

theorem incPoll_in {c : Channels.World} (hkind : (c.chans i).kind = .stream) :
    reportsIn (incPoll c i) ↔ 0 < (c.chans i).rx.avail ∨ (c.chans i).state = .peerGone := by
  simp only [incPoll]
  simp
  grind

theorem accept_channel_ready (hkind : (w.chans.chans i).kind = .stream)
    (hlisten : (w.chans.chans i).state = .listen)
    (number : Bool) :
    (w.accept number (.unixSock i)).2.Ready ↔ (w.chans.chans i).acceptQueue ≠ [] := by
  simp only [accept, Channels.World.accept, hkind, hlisten]
  cases (w.chans.chans i).acceptQueue with
  | nil => simp [Outcome.Ready]
  | cons c rest => cases number <;> simp [Outcome.Ready]

theorem read_channel_ready (hkind : (w.chans.chans i).kind = .stream) (len : Nat) :
    (w.fdRead len (.unixSock i)).2.Ready ↔
      (Counts len ∧ 0 < (w.chans.chans i).rx.avail) ∨ (w.chans.chans i).state = .peerGone := by
  have hlen : 0 < min (len % 2 ^ 32) (w.chans.chans i).rx.avail ↔ Counts len ∧ 0 <
    (w.chans.chans i).rx.avail := by
    rw [Counts]
    omega
  rw [fdRead, World.read, ← hlen]
  rw [if_neg (not_not.2 hkind)]
  split
  next hn => simp only [hn, true_or, Option.map_some, Option.getD_some, Outcome.Ready]
  next hn =>
    split
    next hgone => simp only [hgone, or_true, Option.map_some, Option.getD_some, Outcome.Ready]
    next hgone => simp only [hn, hgone, or_self, Option.map_none, Option.getD_none, Outcome.Ready]

theorem channel_in (hstream : w.stream (.unixSock i)) :
    (reportsIn (w.revents (.unixSock i)) ↔ (w.taking ask (.unixSock i)).Ready) ↔ w.SureIn ask
    (.unixSock i) := by
  rw [revents, taking, World.SureIn]
  by_cases hkind : (w.chans.chans i).kind = .stream
  · rw [incPoll_in hkind]
    by_cases hlisten : (w.chans.chans i).state = .listen
    · have hlistens : w.listens (.unixSock i) = true := by simp [listens, hlisten]
      rw [if_pos hlistens, accept_channel_ready hkind hlisten]
      simp only [hlisten]
      grind
    · have hlistens : ¬ w.listens (.unixSock i) = true := by simp [listens, hlisten]
      rw [if_neg hlistens, read_channel_ready hkind]
      simp only [hlisten]
      grind
  · have hfree : (w.chans.chans i).kind = .free := by
      have : (w.chans.chans i).kind ≠ .dgram := hstream
      cases hkind' : (w.chans.chans i).kind <;> grind
    have hwaits : ¬ (if w.listens (.unixSock i) then (w.accept ask.number (.unixSock i)).2
        else (w.fdRead ask.len (.unixSock i)).2).Ready := by
      split <;> simp [accept, fdRead, Channels.World.accept, Channels.World.read, hfree,
        Outcome.Ready]
    have hpoll : reportsIn (incPoll w.chans i) := by simp [incPoll, hfree]
    simp only [hpoll, hwaits, hkind, false_and, iff_false, not_true]

end Channels

theorem eventfd_in (hlen : 8 ≤ ask.len) :
    (reportsIn (w.revents .eventfd) ↔ (w.taking ask .eventfd).Ready) ↔ w.SureIn ask .eventfd := by
  simp only [revents, taking, listens, fdRead, SureIn, if_neg (Nat.not_lt.2 hlen)]
  cases hevent : w.event with
  | none => simp [Outcome.Ready]
  | some e =>
    by_cases hzero : e.counter = 0
    · cases hnon : e.nonblock <;> simp [EventFd.read, hzero, hnon, Outcome.Ready]
    · simp [EventFd.read, hzero, Outcome.Ready, UInt64.pos_iff_ne_zero]

theorem TimerFd.count_toNat (t : TimerFd) (now : UInt64) : (t.count now).toNat =
    if t.expired now then
      if t.intervalCnt = 0 then 1 else (now.toNat - t.expireCnt.toNat) / t.intervalCnt.toNat + 1
    else 0 := by
  rw [TimerFd.count]
  by_cases hexpired : t.expired now = true
  · rw [if_neg (not_not.2 hexpired), if_pos hexpired]
    split
    · rfl
    · simp only [TimerFd.expired, decide_eq_true_eq] at hexpired
      have hpos : 0 < t.expireCnt.toNat :=
        Nat.pos_of_ne_zero fun h => hexpired.1 (UInt64.toNat_inj.1 h)
      have hle : t.expireCnt.toNat ≤ now.toNat := hexpired.2
      have hlt := now.toNat_lt
      have hdiv := Nat.div_le_self (now.toNat - t.expireCnt.toNat) t.intervalCnt.toNat
      have hone : (1 : UInt64).toNat = 1 := rfl
      rw [UInt64.toNat_add, UInt64.toNat_div, UInt64.toNat_sub_of_le _ _ hexpired.2, hone,
        Nat.mod_eq_of_lt (by omega), Nat.add_comm]
  · rw [if_pos hexpired, if_neg hexpired]
    rfl

/-- A timer that has expired has expired some number of times. -/
theorem TimerFd.count_ne_zero {t : TimerFd} {now : UInt64} :
    t.count now ≠ 0 ↔ t.expired now = true := by
  rw [ne_eq, ← UInt64.toNat_inj, TimerFd.count_toNat]
  split
  next hexpired => split <;> simp [hexpired]
  next hexpired => simp [hexpired]

theorem timerfd_in (hlen : 8 ≤ ask.len) :
    (reportsIn (w.revents .timerfd) ↔ (w.taking ask .timerfd).Ready) ↔ w.SureIn ask .timerfd := by
  simp only [revents, taking, listens, fdRead, SureIn, if_neg (Nat.not_lt.2 hlen)]
  cases htimer : w.timer with
  | none => simp [Outcome.Ready]
  | some t =>
    have hcount : t.count w.now ≠ 0 ↔ t.expired w.now = true := TimerFd.count_ne_zero
    by_cases hexpired : t.expired w.now = true
    · simp [TimerFd.read, hexpired, hcount.2 hexpired, Outcome.Ready]
    · simp [TimerFd.read, hexpired, not_not.1 (mt hcount.1 hexpired), Outcome.Ready]

theorem signalfd_in (hlen : 128 ≤ ask.len) :
    (reportsIn (w.revents .signalfd) ↔ (w.taking ask .signalfd).Ready) ↔
    w.SureIn ask .signalfd := by
  simp only [revents, taking, listens, fdRead, SureIn]
  cases hsignal : w.signal with
  | none => simp [Outcome.Ready]
  | some s =>
    by_cases hzero : w.pending &&& s.mask = 0
    · simp [SignalFd.read, hzero, Outcome.Ready]
    · have hready : (s.read w.pending ask.len).2.Ready := by
        rw [SignalFd.read, if_neg hzero, if_neg (Nat.not_lt.2 hlen)]
        split <;> trivial
      simp [hready, hzero]

theorem inotify_in :
    (reportsIn (w.revents .inotify) ↔ (w.taking ask .inotify).Ready) ↔ w.SureIn ask .inotify := by
  simp only [revents, taking, listens, fdRead, SureIn]
  cases hwatch : w.watch with
  | none => simp [Outcome.Ready]
  | some n =>
    cases hring : n.ring with
    | nil => cases hnon : n.nonblock <;> simp [Inotify.read, hring, hnon, Outcome.Ready]
    | cons e rest =>
      have hready : (n.read ask.len).2.Ready := by
        rw [Inotify.read, hring]
        dsimp only
        split <;> simp [Outcome.Ready]
      simp [hready, hring]

/-- Either end of a terminal. -/
theorem relay_in (ring : RingBuffer UInt8 kRelayRingBytes) (gone : Bool) (cap : Nat) :
    (reportsIn (SisterRelay.revents ring gone) ↔ (SisterRelay.tryRead ring gone cap).2.Ready) ↔
      (0 < ring.avail → cap ≠ 0) := by
  rw [SisterRelay.revents, SisterRelay.tryRead]
  by_cases havail : ring.avail = 0
  · cases gone <;> simp [havail, Outcome.Ready]
  · have hpos : 0 < ring.avail := Nat.pos_of_ne_zero havail
    by_cases hcap : cap = 0
    · simp [havail, hcap, Outcome.Ready]
    · have hmin : 0 < min cap ring.avail := by omega
      simp only [if_neg havail, if_pos hmin]
      simp [hpos, hcap, Outcome.Ready]

theorem ptyMaster_in :
    (reportsIn (w.revents .ptyMaster) ↔ (w.taking ask .ptyMaster).Ready) ↔
    w.SureIn ask .ptyMaster := by
  simp only [revents, taking, listens, fdRead, SureIn, SisterRelay.pollMaster]
  cases w.relay with
  | none => simp [Outcome.Ready]
  | some r =>
    simp only [Option.some.injEq, forall_eq']
    exact relay_in r.s2m r.slaveGone _

theorem ptySlave_in :
    (reportsIn (w.revents .ptySlave) ↔ (w.taking ask .ptySlave).Ready) ↔
    w.SureIn ask .ptySlave := by
  simp only [revents, taking, listens, fdRead, SureIn, SisterRelay.pollSlave]
  cases w.relay with
  | none => simp [Outcome.Ready]
  | some r =>
    simp only [Option.some.injEq, forall_eq']
    exact relay_in r.m2s r.masterGone _

/-! ## Writing -/

variable {byte : UInt8}

theorem take_one (byte : UInt8) : [byte].take ([byte].length % 2 ^ 32) = [byte] := rfl

/-- One byte is written to a pipe. -/
theorem write_pipe {p : Pipes.Aiwass} (huse : p.inUse = true) (hreaders : 0 < p.readRefs)
    (byte : UInt8) : p.write (some [byte]) =
      if p.ring.avail < Pipes.kAiwassBufSize then ({ p with ring := p.ring.putAll [byte] },
        .moved 1)
      else (p, .wouldBlock) := by
  have hne : p.readRefs ≠ 0 := Nat.ne_of_gt hreaders
  have hshort : 1 ≤ Pipes.kAiwassPipeBuf := by decide
  rw [Pipes.Aiwass.write, if_neg (not_not.2 huse), if_neg hne, List.length_singleton,
    Pipes.Aiwass.room]
  by_cases hroom : p.ring.avail < Pipes.kAiwassBufSize
  · rw [if_pos hroom, if_neg (Nat.ne_of_lt hroom), if_neg (by omega), Nat.min_eq_left (by omega)]
    rfl
  · split
    · rfl
    · rw [if_pos ⟨hshort, by omega⟩]

theorem pipe_out {nonblock : Bool} (hopen : w.peerOpen (.pipeWrite nonblock)) :
    reportsOut (w.revents (.pipeWrite nonblock)) ↔ w.stores byte (.pipeWrite nonblock) := by
  obtain ⟨huse, hreaders⟩ := hopen
  have hne : w.pipe.readRefs ≠ 0 := Nat.ne_of_gt hreaders
  simp only [revents, stores, fdWrite, Fd.unit, Pipes.Aiwass.linuxPipeWrite,
    write_pipe huse hreaders]
  by_cases hroom : w.pipe.ring.avail < Pipes.kAiwassBufSize
  · simp [Pipes.Aiwass.writable, hroom, written]
  · cases nonblock <;> simp [Pipes.Aiwass.writable, huse, hne, hroom, written]

theorem socket_out {i : Antennas.Slot} (hstream : w.stream (.socket i)) :
    reportsOut (w.revents (.socket i)) ↔ w.stores byte (.socket i) := by
  have hudp : (w.ants.ants i).proto ≠ .udp := hstream
  simp only [revents, antennaPoll, stores, fdWrite, Fd.unit, Antennas.Table.tcpSend,
    Antennas.Table.valid]
  by_cases htcp : (w.ants.ants i).proto = .tcp
  · by_cases hstate :
      (w.ants.ants i).tcpState = .established ∨ (w.ants.ants i).tcpState = .closeWait
    · rcases hstate with hstate | hstate <;> simp [htcp, hstate]
    · rw [not_or] at hstate
      by_cases hreset : (w.ants.ants i).tcpState = .reset <;> simp [htcp, hstate, hreset]
  · have hfree : (w.ants.ants i).proto = .free := by
      cases hproto : (w.ants.ants i).proto <;> grind
    simp [hfree]

/-- One byte is sent to the other end. -/
theorem write_channel {c : Channels.World} {i p : Channels.Slot} (hpeer : (c.chans i).peer = some p)
    (hfree : (c.chans p).kind ≠ .free) (byte : UInt8) :
    (c.write i [byte]).2 = some 1 ↔
      (c.chans i).kind = .stream ∧ (c.chans i).state = .connected ∧ 0 < (c.chans p).room := by
  rw [Channels.World.write, Channels.World.incSend]
  cases hsink : Channels.World.sink c.chans i with
  | error e =>
    rw [Channels.World.sink] at hsink
    grind
  | ok q =>
    have hq : q = p ∧ (c.chans i).kind = .stream ∧ (c.chans i).state = .connected := by
      rw [Channels.World.sink] at hsink
      grind
    obtain ⟨rfl, hkind, hstate⟩ := hq
    simp only [hkind, hstate, List.length_take]
    generalize (c.chans q).room = room
    rcases room with - | room
    · simp
    · simp

theorem channel_out {i : Channels.Slot} (hstream : w.stream (.unixSock i))
    (hopen : w.peerOpen (.unixSock i)) :
    (reportsOut (w.revents (.unixSock i)) ↔ w.stores byte (.unixSock i)) ↔ w.SureOut byte
    (.unixSock i) := by
  obtain ⟨p, hpeer, hfree⟩ := hopen
  have hdgram : (w.chans.chans i).kind ≠ .dgram := hstream
  simp only [stores, fdWrite, Fd.unit, write_channel hpeer hfree, SureOut, hpeer, revents, incPoll]
  by_cases hkind : (w.chans.chans i).kind = .stream
  · by_cases hconnected : (w.chans.chans i).state = .connected <;> simp [hkind]
  · have hnone : (w.chans.chans i).kind = .free := by
      cases hkind' : (w.chans.chans i).kind <;> grind
    simp [hnone]

/-- One is added to a counter. -/
theorem write_eventfd (e : EventFd) :
    (e.write 1).1.counter.toNat = e.counter.toNat + 1 ↔ e.counter < EventFd.most := by
  have hmost : EventFd.most.toNat = 2 ^ 64 - 2 := rfl
  have hone : (1 : UInt64).toNat = 1 := rfl
  rw [EventFd.write, if_neg (by decide), UInt64.lt_iff_toNat_lt (a := e.counter)]
  by_cases hfull : EventFd.most - e.counter < 1
  · have hsub := UInt64.lt_iff_toNat_lt.1 hfull
    rw [UInt64.toNat_sub] at hsub
    rw [if_pos hfull]
    dsimp only
    omega
  · have hsub := mt UInt64.lt_iff_toNat_lt.2 hfull
    rw [UInt64.toNat_sub] at hsub
    rw [if_neg hfull]
    rw [UInt64.toNat_add]
    omega

theorem eventfd_out :
    (reportsOut (w.revents .eventfd) ↔ w.stores byte .eventfd) ↔ w.SureOut byte .eventfd := by
  have hword : word ([1, 0, 0, 0, 0, 0, 0, 0].take 8) = 1 := by decide
  simp only [revents, stores, fdWrite, Fd.unit, SureOut, hword]
  cases w.event with
  | none => simp
  | some e => simp [write_eventfd]

theorem ptyMaster_out (hopen : w.peerOpen .ptyMaster) :
    (reportsOut (w.revents .ptyMaster) ↔ w.stores byte .ptyMaster) ↔ w.SureOut byte .ptyMaster := by
  obtain ⟨r, hrelay, -⟩ := hopen
  simp only [revents, stores, fdWrite, Fd.unit, SureOut, hrelay, SisterRelay.pollMaster,
    SisterRelay.revents, SisterRelay.masterWrite]
  simp
  omega

theorem ptySlave_out (hopen : w.peerOpen .ptySlave) :
    (reportsOut (w.revents .ptySlave) ↔ w.stores byte .ptySlave) ↔ w.SureOut byte .ptySlave := by
  obtain ⟨r, hrelay, -⟩ := hopen
  simp only [revents, stores, fdWrite, Fd.unit, SureOut, hrelay, take_one, SisterRelay.pollSlave,
    SisterRelay.revents, SisterRelay.slaveWrite]
  by_cases hfull : kRelayRingBytes - r.s2m.avail < (r.post byte).length
  · simp [hfull]
  · simp [hfull, Nat.not_lt.1 hfull]

/-! ## The result -/

/-- **Main theorem.** In every state, for every descriptor and whatever it is asked with, `poll`
tells the truth exactly if the descriptor is in one of the states of `World.Sure`. -/
theorem readiness_iff (w : World) (d : Fd) (ask : Ask) : w.Agrees d ask ↔ w.Sure d ask := by
  rw [Agrees]
  refine forall_congr' fun hstream => and_congr ?_ ?_
  · refine forall_congr' fun hreads => forall_congr' fun hlen => ?_
    cases d with
    | pipeRead nonblock => exact iff_true_intro (pipe_in nonblock ask.len)
    | pipeWrite nonblock => exact absurd hreads id
    | socket i => exact socket_in hstream
    | unixSock i => exact channel_in hstream
    | eventfd => exact eventfd_in hlen
    | timerfd => exact timerfd_in hlen
    | signalfd => exact signalfd_in hlen
    | inotify => exact inotify_in
    | ptyMaster => exact ptyMaster_in
    | ptySlave => exact ptySlave_in
  · refine forall_congr' fun hopen => ?_
    cases d with
    | pipeWrite nonblock => exact iff_true_intro (pipe_out hopen)
    | socket i => exact iff_true_intro (socket_out hstream)
    | unixSock i => exact channel_out hstream hopen
    | eventfd => exact eventfd_out
    | ptyMaster => exact ptyMaster_out hopen
    | ptySlave => exact ptySlave_out hopen
    | pipeRead | timerfd | signalfd | inotify => exact absurd hopen id

/-- A terminal whose ring has been filled takes nothing more. -/
theorem masterWrite_full {r : SisterRelay} {buf : List UInt8}
    (hfull : kRelayRingBytes ≤ r.m2s.avail + buf.length)
    (more : List UInt8) : ((r.masterWrite buf).1.masterWrite more).2 = 0 := by
  have havail : (r.masterWrite buf).1.m2s.avail = r.m2s.avail + min buf.length
    (kRelayRingBytes - r.m2s.avail) := by
    rw [SisterRelay.masterWrite, RingBuffer.avail_putAll, List.length_take]
    omega
  rw [SisterRelay.masterWrite]
  omega

/-- A connection to the port 80 has begun. -/
def syn : Antennas.Segment :=
    { srcIp := ⟨10, 0, 2, 2⟩, srcPort := 5000, dstPort := 80, flags := { syn := true } }

/-- Where `poll` is wrong: a TCP listener with a connection that is not established yet is reported,
a local one with a connection to accept is not, and a counter and a terminal are reported for
writing with no room left. -/
theorem readiness_wrong :
    ¬ (run step {} [.ants .socketTcp, .ants (.bind 0 80), .ants (.listen 0 1),
      .ants (.arrive (.tcp syn 7))]).Agrees (.socket 0) ⟨1, 0, true⟩ ∧
    ¬ (run step {} [.chans (.socket true), .chans (.bind 0 [47]), .chans (.listen 0 1),
      .chans (.socket true), .chans (.connect 1 [47])]).Agrees (.unixSock 0) ⟨1, 0, true⟩ ∧
    ¬ (run step {} [.eventfd2 0 false false, .write .eventfd
      [254, 255, 255, 255, 255, 255, 255, 255]]).Agrees .eventfd ⟨8, 0, true⟩ ∧
    ¬ (run step {} [.ptmx, .unlockpt, .openSlave, .write .ptyMaster (List.replicate 4096 0)]).Agrees
      .ptyMaster ⟨1, 0, true⟩ := by
  refine ⟨fun h => ?_, fun h => ?_, fun h => ?_, fun h => ?_⟩
  · have hin := (h nofun).1 trivial (by decide)
    exact nomatch hin.1 (by decide)
  · have hin := (h nofun).1 trivial (by decide)
    exact nomatch hin.2 (by decide)
  · have hout := (h trivial).2 trivial
    obtain ⟨e, e', he, he', hcounter⟩ := hout.1 (by decide)
    cases he
    cases he'
    cases hcounter
  · have hout := (h trivial).2 ⟨_, rfl, by decide⟩
    have hstores := hout.1 (by decide)
    have hone := Option.some.inj hstores
    rw [masterWrite_full] at hone
    · cases hone
    · rw [List.length_take, List.length_replicate]
      decide

end IndexOS.Poll
