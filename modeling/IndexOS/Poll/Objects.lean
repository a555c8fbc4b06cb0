import IndexOS.Aiwass.Pipe
import IndexOS.Antenna.Table
import IndexOS.Channel.Table

/-!
# What descriptors are for, and how they are polled

`linux_fd_revents` answers `poll` and `epoll` for ten kinds of objects, each with its own test, and
the calls that the answer is about are written elsewhere.  Pipes, sockets and channels have their
own modules; here are the objects of `event_queue.cpp` and the pseudo-terminals of
`sister_relay.cpp`, and over them all the descriptors of a process.  Of each table but those of the
sockets there is one entry, which the descriptors of its kind are for.

* `EventFd`, `TimerFd`, `SignalFd`, `Inotify`, `SisterRelay` — the objects;
* `World.revents` — `linux_fd_revents`;
* `World.fdRead`, `World.fdWrite`, `World.accept` — the calls;
* `Event`, `World.step` — how the objects change.
-/

set_option autoImplicit false

namespace IndexOS.Poll

/-- What comes of a call that reads or accepts. -/
inductive Outcome where
  /-- so many bytes; none at the end of the file -/
  | gives (n : Nat)
  | connection
  | fails (errno : Int)
  /-- the process parks, or the call goes round in its loop -/
  | waits
deriving DecidableEq

/-- The call has come to something. -/
def Outcome.Ready : Outcome → Prop
  | .gives _ | .connection => True
  | .fails errno => errno ≠ -11
  | .waits => False

instance : DecidablePred Outcome.Ready :=
    fun o => by cases o <;> dsimp only [Outcome.Ready] <;> infer_instance

def refDec (refs : UInt16) : UInt16 := if 0 < refs then refs - 1 else 0

/-! ## Event counters -/

structure EventFd where
  refs : UInt16 := 1
  counter : UInt64
  semaphore : Bool := false
  nonblock : Bool := false

namespace EventFd

/-- the most that is counted -/
def most : UInt64 := 0xfffffffffffffffe

def read (e : EventFd) : EventFd × Outcome :=
  if e.counter = 0 then (e, if e.nonblock then .fails (-11) else .waits)
  else
    let v := if e.semaphore then 1 else e.counter
    ({ e with counter := e.counter - v }, .gives 8)

def write (e : EventFd) (v : UInt64) : EventFd × Int :=
  if v = 0xffffffffffffffff then (e, -22)
  else if most - e.counter < v then ({ e with counter := most }, 8)
  else ({ e with counter := e.counter + v }, 8)

end EventFd

/-! ## Timers -/

/-- The timer is not armed if `expireCnt` is 0. -/
structure TimerFd where
  refs : UInt16 := 1
  nonblock : Bool := false
  expireCnt : UInt64 := 0
  intervalCnt : UInt64 := 0

namespace TimerFd

def expired (t : TimerFd) (now : UInt64) : Bool := t.expireCnt ≠ 0 ∧ t.expireCnt ≤ now

/-- How often the timer has expired. -/
def count (t : TimerFd) (now : UInt64) : UInt64 :=
  if ¬ t.expired now then 0
  else if t.intervalCnt = 0 then 1
  else 1 + (now - t.expireCnt) / t.intervalCnt

def read (t : TimerFd) (now : UInt64) : TimerFd × Outcome :=
  let exp := t.count now
  let expire :=
    if ¬ t.expired now then t.expireCnt
    else if t.intervalCnt = 0 then 0
    else t.expireCnt + exp * t.intervalCnt
  ({ t with expireCnt := expire }, if exp = 0 then .fails (-11) else .gives 8)

end TimerFd

/-! ## Signals -/

structure SignalFd where
  refs : UInt16 := 1
  nonblock : Bool := false
  mask : UInt64

/-- The pending signals that are left, and the answer; the lowest signal is taken. -/
def SignalFd.read (s : SignalFd) (pending : UInt64) (len : Nat) : UInt64 × Outcome :=
  let deliverable := pending &&& s.mask
  if deliverable = 0 then (pending, .fails (-11))
  else if len < 128 then (pending, .fails (-22))
  else
    match (List.range 64).find? fun k => deliverable.toNat.testBit k with
    | some k => (pending &&& ~~~(1 <<< UInt64.ofNat k), .gives 128)
    | none => (pending, .gives 128)

/-! ## Changes to files -/

def kInotifyEvents : Nat := 32

def kInotifyNameCap : Nat := 64

structure InotifyEvent where
  wd : Int
  mask : UInt32 := 0
  cookie : UInt32 := 0
  name : List UInt8 := []

structure Inotify where
  refs : UInt16 := 1
  nonblock : Bool := false
  overflow : Bool := false
  /-- the oldest first -/
  ring : List InotifyEvent := []

namespace Inotify

/-- `inotify_enqueue`; a name ends at its first zero or where the entry does -/
def enqueue (n : Inotify) (e : InotifyEvent) : Inotify :=
  if kInotifyEvents ≤ n.ring.length then { n with overflow := true }
  else { n with ring :=
    n.ring ++ [{ e with name := (e.name.takeWhile (· ≠ 0)).take (kInotifyNameCap - 1) }] }

/-- The bytes of an event; a name is filled up to a multiple of 4. -/
def total (e : InotifyEvent) : Nat := 16 + if e.name = [] then 0 else (e.name.length + 4) / 4 * 4

/-- `inotify_read_one`, and what becomes of `-EAGAIN` -/
def read (n : Inotify) (len : Nat) : Inotify × Outcome :=
  match n.ring with
  | [] => (n, if n.nonblock then .fails (-11) else .waits)
  | e :: rest => if len < total e then (n, .fails (-22))
    else ({ n with ring := rest }, .gives (total e))

end Inotify

/-! ## Pseudo-terminals -/

def kRelayRingBytes : Nat := 4096

structure SisterRelay where
  masterRefs : UInt16 := 1
  slaveRefs : UInt16 := 0
  slaveLocked : Bool := true
  slaveEverOpened : Bool := false
  m2s : RingBuffer UInt8 kRelayRingBytes := { buf := fun _ => 0 }
  s2m : RingBuffer UInt8 kRelayRingBytes := { buf := fun _ => 0 }
  /-- `c_oflag` of the termios -/
  oflag : UInt32 := 5

variable (r : SisterRelay)

namespace SisterRelay

/-- `sr_master_write` -/
def masterWrite (buf : List UInt8) : SisterRelay × Nat :=
  let n := min buf.length (kRelayRingBytes - r.m2s.avail)
  ({ r with m2s := r.m2s.putAll (buf.take n) }, n)

/-- What is put for a byte of the slave: a line feed may get a carriage return before it. -/
def post (c : UInt8) : List UInt8 :=
  if r.oflag &&& 0x1 ≠ 0 ∧ r.oflag &&& 0x4 ≠ 0 ∧ c = 10 then [13, 10] else [c]

/-- `sr_slave_write` -/
def slaveWrite : SisterRelay → List UInt8 → SisterRelay × Nat
  | r, [] => (r, 0)
  | r, c :: rest =>
    if kRelayRingBytes - r.s2m.avail < (r.post c).length then (r, 0)
    else
      let x := slaveWrite { r with s2m := r.s2m.putAll (r.post c) } rest
      (x.1, x.2 + 1)

/-- The slave has been opened and is closed. -/
def slaveGone : Bool := r.slaveEverOpened ∧ r.slaveRefs = 0

def masterGone : Bool := r.masterRefs = 0

/-- The loop of a read around `sr_master_try_read` or `sr_slave_try_read`. -/
def tryRead (ring : RingBuffer UInt8 kRelayRingBytes) (gone : Bool) (cap : Nat) :
    RingBuffer UInt8 kRelayRingBytes × Outcome :=
  if ring.avail = 0 then (ring, if gone then .gives 0 else .waits)
  else
    let n := min cap ring.avail
    ((ring.takeN n).2, if 0 < n then .gives n else .waits)

/-- What is asked of either end. -/
def revents (ring : RingBuffer UInt8 kRelayRingBytes) (gone : Bool) : UInt32 :=
  0x4 ||| (if 0 < ring.avail then 0x1 else 0) ||| (if gone then 0x1 ||| 0x10 else 0)

/-- `sr_poll_master` -/
def pollMaster : Option SisterRelay → UInt32
  | none => 0x20
  | some r => revents r.s2m r.slaveGone

/-- `sr_poll_slave` -/
def pollSlave : Option SisterRelay → UInt32
  | none => 0x20
  | some r => revents r.m2s r.masterGone

/-- `sr_open_slave` -/
def openSlave : SisterRelay :=
  if r.slaveLocked then r else { r with slaveRefs := r.slaveRefs + 1, slaveEverOpened := true }

/-- `sr_close_master` -/
def closeMaster : Option SisterRelay :=
  if refDec r.masterRefs = 0 ∧ r.slaveRefs = 0 then none else some
    { r with masterRefs := refDec r.masterRefs }

/-- `sr_close_slave` -/
def closeSlave : Option SisterRelay :=
  if refDec r.slaveRefs = 0 ∧ r.masterRefs = 0 then none else some
    { r with slaveRefs := refDec r.slaveRefs }

end SisterRelay

/-! ## Descriptors -/

inductive Fd where
  | pipeRead (nonblock : Bool)
  | pipeWrite (nonblock : Bool)
  | socket (i : Antennas.Slot)
  | unixSock (i : Channels.Slot)
  | eventfd
  | timerfd
  | signalfd
  | inotify
  | ptyMaster
  | ptySlave
deriving DecidableEq

/-- The objects, and the signals that the process has not been given yet. -/
structure World where
  pipe : Pipes.Aiwass := { ring := { buf := fun _ => 0 } }
  ants : Antennas.Table := {}
  chans : Channels.World := {}
  event : Option EventFd := none
  timer : Option TimerFd := none
  signal : Option SignalFd := none
  watch : Option Inotify := none
  relay : Option SisterRelay := none
  pending : UInt64 := 0
  now : UInt64 := 0
  ticks : Nat := 0

variable (w : World)

namespace World

/-- `antenna_poll` -/
def antennaPoll (t : Antennas.Table) (i : Antennas.Slot) : UInt32 :=
  let a := t.ants i
  if ¬ t.valid i then 0x10
  else
    (if 0 < a.rx.avail then 0x1 else 0) |||
    if a.proto = .tcp then
      (if a.tcpState = .listen ∧ 0 < a.acceptQueue.length then 0x1 else 0) |||
      (if a.peerFin ∧ a.rx.avail = 0 then 0x1 else 0) |||
      (if a.tcpState = .established ∨ a.tcpState = .closeWait then 0x4 else 0) |||
      (if a.tcpState = .closed ∨ a.tcpState = .reset then 0x10 else 0)
    else 0x4

/-- `inc_poll` -/
def incPoll (w : Channels.World) (i : Channels.Slot) : UInt32 :=
  let c := w.chans i
  if c.kind = .free then 0x10
  else
    (if 0 < c.rx.avail then 0x1 else 0) |||
    (if c.state = .peerGone ∧ c.rx.avail = 0 then 0x1 else 0) |||
    (if c.state = .connected then 0x4 else 0) |||
    (if c.state = .peerGone then 0x10 else 0)

/-- `linux_fd_revents` -/
def revents : Fd → UInt32
  | .socket i => antennaPoll w.ants i
  | .unixSock i => incPoll w.chans i
  | .eventfd => 0x4 ||| if w.event.any fun e => 0 < e.counter then 0x1 else 0
  | .timerfd => if w.timer.any fun t => t.expired w.now then 0x1 else 0
  | .signalfd => if w.signal.any fun s => w.pending &&& s.mask ≠ 0 then 0x1 else 0
  | .inotify => if w.watch.any fun n => 0 < n.ring.length then 0x1 else 0
  | .pipeRead _ => if w.pipe.readable then 0x1 else 0
  | .pipeWrite _ => if w.pipe.writable then 0x4 else 0
  | .ptyMaster => SisterRelay.pollMaster w.relay
  | .ptySlave => SisterRelay.pollSlave w.relay

/-! ## Calls -/

def received : Pipes.Reply (List UInt8) → Outcome
  | .fails errno => .fails errno
  | .parked | .again => .waits
  | .gives bytes => .gives bytes.length

def written : Pipes.Reply Nat → Option Int
  | .fails errno => some errno
  | .parked | .again => none
  | .gives n => some n

/-- What `read` makes of `antenna_tcp_try_recv`. -/
def recvOutcome : Except Int (List UInt8 × Bool) → Outcome
  | .error _ => .waits
  | .ok (bytes, gone) => if 0 < bytes.length then .gives bytes.length else if gone then .gives 0
    else .waits

/-- `fd_read_dispatch`; the lengths for sockets and terminals are cast to 32 bits -/
def fdRead (len : Nat) : Fd → World × Outcome
  | .pipeRead nonblock =>
    let r := w.pipe.linuxPipeRead nonblock len
    ({ w with pipe := r.1 }, received r.2)
  | .pipeWrite _ => (w, .gives 0)
  | .socket i =>
    let r := w.ants.tcpTryRecv i (len % 2 ^ 32)
    ({ w with ants := r.1 }, recvOutcome r.2)
  | .unixSock i =>
    let r := w.chans.read i len
    ({ w with chans := r.1 }, (r.2.map fun n => .gives n.toNat).getD .waits)
  | .timerfd =>
    if len < 8 then (w, .fails (-22))
    else
      match w.timer with
      | none => (w, .fails (-9))
      | some t => ({ w with timer := some (t.read w.now).1 }, (t.read w.now).2)
  | .signalfd =>
    match w.signal with
    | none => (w, .fails (-9))
    | some s => ({ w with pending := (s.read w.pending len).1 }, (s.read w.pending len).2)
  | .inotify =>
    match w.watch with
    | none => (w, .fails (-9))
    | some n => ({ w with watch := some (n.read len).1 }, (n.read len).2)
  | .eventfd =>
    if len < 8 then (w, .fails (-22))
    else
      match w.event with
      | none => (w, .fails (-9))
      | some e => ({ w with event := some e.read.1 }, e.read.2)
  | .ptyMaster =>
    match w.relay with
    | none => (w, .waits)
    | some r =>
      let x := SisterRelay.tryRead r.s2m r.slaveGone (len % 2 ^ 32)
      ({ w with relay := some { r with s2m := x.1 } }, x.2)
  | .ptySlave =>
    match w.relay with
    | none => (w, .waits)
    | some r =>
      let x := SisterRelay.tryRead r.m2s r.masterGone (len % 2 ^ 32)
      ({ w with relay := some { r with m2s := x.1 } }, x.2)

/-- The number that bytes of memory are. -/
def word (buf : List UInt8) : UInt64 := buf.foldr (fun b v => v * 256 + b.toUInt64) 0

/-- `fd_write_dispatch`; no answer where the process parks or the call goes round -/
def fdWrite (buf : List UInt8) : Fd → World × Option Int
  | .pipeWrite nonblock =>
    let r := w.pipe.linuxPipeWrite nonblock (some buf)
    ({ w with pipe := r.1 }, written r.2)
  | .socket i =>
    let r := w.ants.tcpSend i (buf.take (buf.length % 2 ^ 32)) w.ticks
    ({ w with ants := r.1 }, some r.2)
  | .unixSock i =>
    let r := w.chans.write i buf
    ({ w with chans := r.1 }, r.2)
  | .eventfd =>
    if buf.length < 8 then (w, some (-22))
    else
      match w.event with
      | none => (w, some (-9))
      | some e =>
        let r := e.write (word (buf.take 8))
        ({ w with event := some r.1 }, some r.2)
  | .ptyMaster =>
    match w.relay with
    | none => (w, some (-9))
    | some r =>
      let x := r.masterWrite (buf.take (buf.length % 2 ^ 32))
      ({ w with relay := some x.1 }, some x.2)
  | .ptySlave =>
    match w.relay with
    | none => (w, some (-9))
    | some r =>
      let x := r.slaveWrite (buf.take (buf.length % 2 ^ 32))
      ({ w with relay := some x.1 }, some x.2)
  | .pipeRead _ | .timerfd | .signalfd | .inotify => (w, some (-9))

/-- `accept`; `number` says whether there is a number for the new descriptor -/
def accept (number : Bool) : Fd → World × Outcome
  | .socket i =>
    let r := w.ants.tcpTryAccept i
    match r.2 with
    | none => (w, .waits)
    | some c =>
      if number then ({ w with ants := r.1 }, .connection)
        else ({ w with ants := r.1.close c }, .fails (-24))
  | .unixSock i =>
    let r := w.chans.accept i number
    ({ w with chans := r.1 },
      match r.2 with
      | none => .waits
      | some n => if n = 0 then .connection else .fails n)
  | _ => (w, .fails (-9))

end World

/-! ## How the objects change -/

inductive Event where
  | read (d : Fd) (len : Nat)
  | write (d : Fd) (buf : List UInt8)
  | accept (d : Fd) (number : Bool)
  /-- what else is done to sockets -/
  | ants (e : Antennas.Event)
  | chans (e : Channels.Call)
  | pipe2
  | eventfd2 (initval : UInt32) (semaphore nonblock : Bool)
  | timerfdCreate (nonblock : Bool)
  | timerfdSettime (expire interval : UInt64)
  | signalfd4 (mask : UInt64) (nonblock : Bool)
  | raise (signals : UInt64)
  | inotifyInit1 (nonblock : Bool)
  | notify (e : InotifyEvent)
  | ptmx
  | unlockpt
  | openSlave
  | setOflag (oflag : UInt32)
  /-- one more descriptor, or one less -/
  | dup (d : Fd)
  | close (d : Fd)
  | tick (now : UInt64) (ticks : Nat)

namespace World

/-- A reference is dropped, and the object with the last. -/
def unref {α : Type} (refs : α → UInt16) (set : α → UInt16 → α) (x : α) : Option α :=
  if refDec (refs x) = 0 then none else some (set x (refDec (refs x)))

def dup : Fd → World
  | .pipeRead _ => { w with pipe := w.pipe.incRead 1 }
  | .pipeWrite _ => { w with pipe := w.pipe.incWrite 1 }
  | .socket i => { w with ants := w.ants.incRef i }
  | .unixSock i => { w with chans := w.chans.refFdBackend (.unixSock i) }
  | .eventfd => { w with event := w.event.map fun e => { e with refs := e.refs + 1 } }
  | .timerfd => { w with timer := w.timer.map fun t => { t with refs := t.refs + 1 } }
  | .signalfd => { w with signal := w.signal.map fun s => { s with refs := s.refs + 1 } }
  | .inotify => { w with watch := w.watch.map fun n => { n with refs := n.refs + 1 } }
  | .ptyMaster => { w with relay := w.relay.map fun r => { r with masterRefs := r.masterRefs + 1 } }
  | .ptySlave => { w with relay := w.relay.map fun r => { r with slaveRefs := r.slaveRefs + 1 } }

def close : Fd → World
  | .pipeRead _ => { w with pipe := w.pipe.closeRead }
  | .pipeWrite _ => { w with pipe := w.pipe.closeWrite }
  | .socket i => { w with ants := w.ants.close i }
  | .unixSock i => { w with chans := w.chans.close i }
  | .eventfd => { w with event := w.event.bind (unref EventFd.refs fun e refs => { e with refs }) }
  | .timerfd => { w with timer := w.timer.bind (unref TimerFd.refs fun t refs => { t with refs }) }
  | .signalfd => { w with signal := w.signal.bind (unref SignalFd.refs fun s refs =>
    { s with refs }) }
  | .inotify => { w with watch := w.watch.bind (unref Inotify.refs fun n refs => { n with refs }) }
  | .ptyMaster => { w with relay := w.relay.bind SisterRelay.closeMaster }
  | .ptySlave => { w with relay := w.relay.bind SisterRelay.closeSlave }

def step : Event → World
  | .read d len => (w.fdRead len d).1
  | .write d buf => (w.fdWrite buf d).1
  | .accept d number => (w.accept number d).1
  | .ants e => { w with ants := w.ants.step e }
  | .chans e => { w with chans := w.chans.step e }
  | .pipe2 =>
    if w.pipe.inUse then w
    else { w with pipe :=
      { inUse := true, ring := { buf := w.pipe.ring.buf }, readRefs := 1, writeRefs := 1 } }
  | .eventfd2 initval semaphore nonblock =>
    { w with event := w.event.or (some { counter := initval.toUInt64, semaphore, nonblock }) }
  | .timerfdCreate nonblock => { w with timer := w.timer.or (some { nonblock }) }
  | .timerfdSettime expire interval =>
    { w with timer := w.timer.map fun t => { t with expireCnt := expire, intervalCnt := interval } }
  | .signalfd4 mask nonblock => { w with signal := w.signal.or (some { mask, nonblock }) }
  | .raise signals => { w with pending := w.pending ||| signals }
  | .inotifyInit1 nonblock => { w with watch := w.watch.or (some { nonblock }) }
  | .notify e => { w with watch := w.watch.map fun n => n.enqueue e }
  | .ptmx => { w with relay := w.relay.or (some {}) }
  | .unlockpt => { w with relay := w.relay.map fun r => { r with slaveLocked := false } }
  | .openSlave => { w with relay := w.relay.map SisterRelay.openSlave }
  | .setOflag oflag => { w with relay := w.relay.map fun r => { r with oflag } }
  | .dup d => w.dup d
  | .close d => w.close d
  | .tick now ticks => { w with now, ticks }

end World
end IndexOS.Poll
