import IndexOS.Descriptors.Tables
import IndexOS.Esper.Basic

/-!
# Reading from what is empty

What a read, a `recvmsg` or an `accept` looks at, and what the other side does to it.  The objects
are those of `IndexOS.Descriptors.Tables`, here with the counters of what waits in them instead of
their reference counts (those of a pipe and of a pty stay: they are how the end of the stream is
seen).

* `pipeRead`, `unixRead`, `unixRecvmsg`, `ptyMasterRead`, `ptySlaveRead`, `tcpRead`, `tcpAccept`,
  `unixAccept`, `eventfdRead`, `inotifyRead` — one attempt, as `fd_read_dispatch`, `linux_pipe_read`
  and the `accept` and `recvmsg` cases make it; nothing where the code goes on to park;
* `Call.waiter` — what is recorded in the Esper when it parks;
* `Call.probe` — what is looked at again under `g_esper_lock` before it does, where something is;
* `Producer.publish` — what the other side changes, and the wake-ups it issues afterwards;
* `Wake.reaches` — which waiting Esper a wake-up makes ready.

Of data only the amount is kept.
-/

set_option autoImplicit false

namespace IndexOS.Blocking

open Descriptors (AntennaProto TcpState ChannelKind ChannelState EventTable kMaxAiwass kMaxAntennas
  kMaxChannels kMaxRelays)

def kAiwassBufSize : Nat := 65536
def kAiwassPipeBuf : Nat := 4096
def kAntennaRxBytes : Nat := 65536
def kChannelRxBytes : Nat := 8192
def kRelayRingBytes : Nat := 4096
def kInotifyEvents : Nat := 32

/-- `Aiwass` -/
structure Pipe where
  inUse : Bool := false
  avail : Nat := 0
  readRefs : Nat := 0
  writeRefs : Nat := 0

/-- `Antenna` -/
structure Socket where
  proto : AntennaProto := .free
  tcpState : TcpState := .closed
  rxAvail : Nat := 0
  peerFin : Bool := false
  acceptQueue : List (Fin kMaxAntennas) := []
  backlog : Nat := 0

/-- `INChannel` -/
structure Channel where
  kind : ChannelKind := .free
  state : ChannelState := .closed
  peer : Option (Fin kMaxChannels) := none
  rxAvail : Nat := 0
  acceptQueue : List (Fin kMaxChannels) := []
  backlog : Nat := 0

/-- `SisterRelay`; `onlcr` is what its `termios` says of a newline on the way out. -/
structure Relay where
  inUse : Bool := false
  masterRefs : Nat := 0
  slaveRefs : Nat := 0
  slaveLocked : Bool := false
  slaveEverOpened : Bool := false
  onlcr : Bool := true
  m2sAvail : Nat := 0
  s2mAvail : Nat := 0

structure EventFd where
  inUse : Bool := false
  counter : Nat := 0
  semaphore : Bool := false
  nonblock : Bool := false

/-- `Inotify`: of each queued event, the number of bytes a read of it returns. -/
structure Inotify where
  inUse : Bool := false
  nonblock : Bool := false
  events : List Nat := []

structure World where
  pipes : Fin kMaxAiwass → Pipe := fun _ => {}
  sockets : Fin kMaxAntennas → Socket := fun _ => {}
  channels : Fin kMaxChannels → Channel := fun _ => {}
  relays : Fin kMaxRelays → Relay := fun _ => {}
  eventfds : Fin EventTable.eventfd.cap → EventFd := fun _ => {}
  inotifys : Fin EventTable.inotify.cap → Inotify := fun _ => {}

namespace World

def setPipe (w : World) (i : Fin kMaxAiwass) (p : Pipe) : World :=
  { w with pipes := Function.update w.pipes i p }

def setSocket (w : World) (i : Fin kMaxAntennas) (a : Socket) : World :=
  { w with sockets := Function.update w.sockets i a }

def setChannel (w : World) (i : Fin kMaxChannels) (c : Channel) : World :=
  { w with channels := Function.update w.channels i c }

def setRelay (w : World) (i : Fin kMaxRelays) (r : Relay) : World :=
  { w with relays := Function.update w.relays i r }

def setEventFd (w : World) (i : Fin EventTable.eventfd.cap) (e : EventFd) : World :=
  { w with eventfds := Function.update w.eventfds i e }

def setInotify (w : World) (i : Fin EventTable.inotify.cap) (n : Inotify) : World :=
  { w with inotifys := Function.update w.inotifys i n }

end World

/-! ## Waiting and waking -/

/-- What an Esper has recorded about its wait; all of it is clear while it runs. -/
structure Waiter where
  waitPipeIdx : Option Nat := none
  waitPipeIsWrite : Bool := false
  ipcWaitKind : IpcWaitKind := .none
  ipcWaitId : Option Nat := none

/-- A critical section that wakes: `wake_pipe_readers`, `wake_pipe_writers` and `linux_ipc_wake`,
whose identifier is absent where the source passes -1. -/
inductive Wake where
  | pipeReaders (i : Nat)
  | pipeWriters (i : Nat)
  | ipc (kind : IpcWaitKind) (id : Option Nat)
deriving DecidableEq

/-- The test each of the three loops makes of a waiting Esper. -/
def Wake.reaches (e : Waiter) : Wake → Bool
  | .pipeReaders i => (e.waitPipeIdx = some i ∧ ¬ e.waitPipeIsWrite) ∨ e.ipcWaitKind = .pollWait
  | .pipeWriters i => (e.waitPipeIdx = some i ∧ e.waitPipeIsWrite) ∨ e.ipcWaitKind = .pollWait
  | .ipc kind id =>
    (e.ipcWaitKind = kind ∧ (id = none ∨ e.ipcWaitId = id)) ∨
      (kind ≠ .pollWait ∧ e.ipcWaitKind = .pollWait)

/-! ## One attempt -/

/-- What the call returns, the objects after it and the wake-ups it issues; nothing where the code
goes on to park. -/
abbrev Attempt := Option (Int × World × List Wake)

variable (w : World)

/-- `linux_pipe_read` with `aiwass_read` -/
def pipeRead (i : Fin kMaxAiwass) (len : Nat) (nonblock : Bool) : Attempt :=
  let p := w.pipes i
  if ¬ p.inUse then some (0, w, [])
  else if p.avail = 0 then
    if 0 < p.writeRefs then (if nonblock then some (-11, w, []) else none) else some (0, w, [])
  else
    let n := min len p.avail
    some (n, w.setPipe i { p with avail := p.avail - n }, if 0 < n then [.pipeWriters i] else [])

/-- `inc_try_recv`: what it returns, and whether the peer is gone. -/
def incTryRecv (c : Channel) (cap : Nat) : Int × Bool :=
  if c.kind ≠ .stream then (-1, false) else (min cap c.rxAvail, c.state = .peerGone)

/-- The bytes `inc_try_recv` returns have left the ring. -/
def incTake (i : Fin kMaxChannels) (r : Int) : World :=
  w.setChannel i { w.channels i with rxAvail := (w.channels i).rxAvail - r.toNat }

/-- `fd_read_dispatch` for an AF_UNIX socket -/
def unixRead (i : Fin kMaxChannels) (len : Nat) : Attempt :=
  let (r, peerGone) := incTryRecv (w.channels i) len
  if 0 < r then some (r, incTake w i r, [])
  else if peerGone then some (0, w, [])
  else none

/-- `recvmsg` for an AF_UNIX socket, with room for `want` bytes -/
def unixRecvmsg (i : Fin kMaxChannels) (want : Nat) : Attempt :=
  if want = 0 then some (0, w, [])
  else
    let (r, peerGone) := incTryRecv (w.channels i) want
    if r = 0 ∧ ¬ peerGone then none
    else some (r, incTake w i r, [])

/-- `fd_read_dispatch` for the master side of a pty, with `sr_master_try_read` -/
def ptyMasterRead (i : Fin kMaxRelays) (len : Nat) : Attempt :=
  let r := w.relays i
  if ¬ r.inUse then none
  else
    let n := min len r.s2mAvail
    if 0 < n then some (n, w.setRelay i { r with s2mAvail := r.s2mAvail - n }, [])
    else if r.slaveEverOpened ∧ r.slaveRefs = 0 ∧ r.s2mAvail = 0 then some (0, w, [])
    else none

/-- `fd_read_dispatch` for the slave side, with `sr_slave_try_read` -/
def ptySlaveRead (i : Fin kMaxRelays) (len : Nat) : Attempt :=
  let r := w.relays i
  if ¬ r.inUse then none
  else
    let n := min len r.m2sAvail
    if 0 < n then some (n, w.setRelay i { r with m2sAvail := r.m2sAvail - n }, [])
    else if r.masterRefs = 0 ∧ r.m2sAvail = 0 then some (0, w, [])
    else none

/-- `fd_read_dispatch` for a TCP socket, with `antenna_tcp_try_recv` -/
def tcpRead (i : Fin kMaxAntennas) (len : Nat) : Attempt :=
  let a := w.sockets i
  if a.proto ≠ .tcp then none
  else
    let n := min len a.rxAvail
    if 0 < n then some (n, w.setSocket i { a with rxAvail := a.rxAvail - n }, [])
    else if a.peerFin ∨ a.tcpState = .reset then some (0, w, [])
    else none

/-- `accept` on a TCP socket, with `antenna_tcp_try_accept`: the first queued connection whose
handshake is complete. -/
def tcpAccept (i : Fin kMaxAntennas) : Attempt :=
  let a := w.sockets i
  if a.proto ≠ .tcp ∨ a.tcpState ≠ .listen then none
  else
    match a.acceptQueue.find? fun j => (w.sockets j).tcpState = .established with
    | none => none
    | some j => some (j.val, w.setSocket i { a with acceptQueue := a.acceptQueue.erase j }, [])

/-- `accept` on an AF_UNIX socket, with `inc_try_accept` -/
def unixAccept (i : Fin kMaxChannels) : Attempt :=
  let c := w.channels i
  if c.kind ≠ .stream ∨ c.state ≠ .listen then none
  else
    match c.acceptQueue with
    | [] => none
    | j :: queue => some (j.val, w.setChannel i { c with acceptQueue := queue }, [])

/-- `fd_read_dispatch` for an eventfd -/
def eventfdRead (i : Fin EventTable.eventfd.cap) (len : Nat) : Attempt :=
  let e := w.eventfds i
  if len < 8 then some (-22, w, [])
  else if ¬ e.inUse then some (-9, w, [])
  else if e.counter = 0 then (if e.nonblock then some (-11, w, []) else none)
  else
    let v := if e.semaphore then 1 else e.counter
    some (8, w.setEventFd i { e with counter := e.counter - v }, [])

/-- `fd_read_dispatch` for an inotify descriptor, with `inotify_read_one` -/
def inotifyRead (i : Fin EventTable.inotify.cap) (len : Nat) : Attempt :=
  let n := w.inotifys i
  if ¬ n.inUse then some (-9, w, [])
  else
    match n.events with
    | [] => if n.nonblock then some (-11, w, []) else none
    | total :: events =>
      if len < total then some (-22, w, [])
      else some (total, w.setInotify i { n with events := events }, [])

/-- A call that may have to wait; a pipe is read through a descriptor without `nonblock`. -/
inductive Call where
  | pipeRead (i : Fin kMaxAiwass) (len : Nat)
  | unixRead (i : Fin kMaxChannels) (len : Nat)
  | unixRecvmsg (i : Fin kMaxChannels) (want : Nat)
  | ptyMasterRead (i : Fin kMaxRelays) (len : Nat)
  | ptySlaveRead (i : Fin kMaxRelays) (len : Nat)
  | tcpRead (i : Fin kMaxAntennas) (len : Nat)
  | tcpAccept (i : Fin kMaxAntennas)
  | unixAccept (i : Fin kMaxChannels)
  | eventfdRead (i : Fin EventTable.eventfd.cap) (len : Nat)
  | inotifyRead (i : Fin EventTable.inotify.cap) (len : Nat)
deriving DecidableEq

def Call.attempt : Call → World → Attempt
  | .pipeRead i len, w => Blocking.pipeRead w i len false
  | .unixRead i len, w => Blocking.unixRead w i len
  | .unixRecvmsg i want, w => Blocking.unixRecvmsg w i want
  | .ptyMasterRead i len, w => Blocking.ptyMasterRead w i len
  | .ptySlaveRead i len, w => Blocking.ptySlaveRead w i len
  | .tcpRead i len, w => Blocking.tcpRead w i len
  | .tcpAccept i, w => Blocking.tcpAccept w i
  | .unixAccept i, w => Blocking.unixAccept w i
  | .eventfdRead i len, w => Blocking.eventfdRead w i len
  | .inotifyRead i len, w => Blocking.inotifyRead w i len

/-- What `park_on_pipe`, `linux_ipc_park` and `ipc_park_unless_ready` record for the call. -/
def Call.waiter : Call → Waiter
  | .pipeRead i _ => { waitPipeIdx := some i }
  | .unixRead i _ => { ipcWaitKind := .channelRecv, ipcWaitId := some i }
  | .unixRecvmsg i _ => { ipcWaitKind := .channelRecv, ipcWaitId := some i }
  | .ptyMasterRead i _ => { ipcWaitKind := .ptyMasterRead, ipcWaitId := some i }
  | .ptySlaveRead i _ => { ipcWaitKind := .ptySlaveRead, ipcWaitId := some i }
  | .tcpRead i _ => { ipcWaitKind := .antennaRecv, ipcWaitId := some i }
  | .tcpAccept i => { ipcWaitKind := .antennaAccept, ipcWaitId := some i }
  | .unixAccept i => { ipcWaitKind := .channelAccept, ipcWaitId := some i }
  | .eventfdRead i _ => { ipcWaitKind := .eventfdRead, ipcWaitId := some i }
  | .inotifyRead i _ => { ipcWaitKind := .inotifyRead, ipcWaitId := some i }

/-! ## What is looked at again under the lock -/

/-- `aiwass_readable` -/
def aiwassReadable (i : Fin kMaxAiwass) : Bool :=
  ¬ (w.pipes i).inUse ∨ 0 < (w.pipes i).avail ∨ (w.pipes i).writeRefs = 0

/-- `channel_readable`: the POLLIN bit of `inc_poll`. -/
def channelReadable (i : Fin kMaxChannels) : Bool :=
  let c := w.channels i
  c.kind ≠ .free ∧ (0 < c.rxAvail ∨ (c.state = .peerGone ∧ c.rxAvail = 0))

/-- `pty_master_readable`: the POLLIN bit of `sr_poll_master`. -/
def ptyMasterReadable (i : Fin kMaxRelays) : Bool :=
  let r := w.relays i
  r.inUse ∧ (0 < r.s2mAvail ∨ (r.slaveEverOpened ∧ r.slaveRefs = 0))

/-- `pty_slave_readable`: the POLLIN bit of `sr_poll_slave`. -/
def ptySlaveReadable (i : Fin kMaxRelays) : Bool :=
  let r := w.relays i
  r.inUse ∧ (0 < r.m2sAvail ∨ r.masterRefs = 0)

/-- The second look, for the calls that park through `park_on_pipe` or `ipc_park_unless_ready`; the
others park through `linux_ipc_park`, which does not take one. -/
def Call.probe : Call → Option (World → Bool)
  | .pipeRead i _ => some fun w => aiwassReadable w i
  | .unixRead i _ => some fun w => channelReadable w i
  | .ptyMasterRead i _ => some fun w => ptyMasterReadable w i
  | .ptySlaveRead i _ => some fun w => ptySlaveReadable w i
  | _ => none

/-! ## The other side -/

/-- What a producer does: writes, closes, connections, segments that arrive, mutations that are
watched. -/
inductive Producer where
  | aiwassWrite (i : Fin kMaxAiwass) (len : Nat)
  | aiwassCloseWrite (i : Fin kMaxAiwass)
  | incSend (i : Fin kMaxChannels) (len : Nat)
  /-- `inc_close` of the last reference -/
  | incClose (i : Fin kMaxChannels)
  | incConnect (client server child : Fin kMaxChannels)
  | srMasterWrite (i : Fin kMaxRelays) (len : Nat)
  | srSlaveWrite (i : Fin kMaxRelays) (bytes : List UInt8)
  | srOpenSlave (i : Fin kMaxRelays)
  | srCloseMaster (i : Fin kMaxRelays)
  | srCloseSlave (i : Fin kMaxRelays)
  /-- the end of `sr_close_master` and `sr_close_slave` -/
  | srFree (i : Fin kMaxRelays)
  /-- a SYN for the listener, answered by a new socket -/
  | tcpSyn (listener child : Fin kMaxAntennas)
  /-- the last ACK of the handshake -/
  | tcpEstablish (i : Fin kMaxAntennas)
  /-- the payload that came with it -/
  | tcpCoalesced (i : Fin kMaxAntennas) (len : Nat)
  /-- a segment in order, and what it frees of the segments that had come too early -/
  | tcpData (i : Fin kMaxAntennas) (len early : Nat)
  | tcpFin (i : Fin kMaxAntennas)
  /-- an RST, or a segment that was sent too often without an answer -/
  | tcpReset (i : Fin kMaxAntennas)
  | eventfdWrite (i : Fin EventTable.eventfd.cap) (v : Nat)
  /-- `kazakiri_notify`: an event of some size for each watch that matches -/
  | kazakiriNotify (matched : List (Fin EventTable.inotify.cap × Nat))

/-- The bytes the slave side's line discipline puts in the ring: a newline becomes two, or stays out
with everything after it. -/
def slaveEmit (onlcr : Bool) : Nat → List UInt8 → Nat
  | _, [] => 0
  | free, c :: bytes =>
    if onlcr ∧ c = 10 then
      (if free < 2 then 0 else 2 + slaveEmit onlcr (free - 2) bytes)
    else
      (if free < 1 then 0 else 1 + slaveEmit onlcr (free - 1) bytes)

/-- `rx_bytes_put`: what fits is stored. -/
def rxBytesPut (a : Socket) (len : Nat) : Socket :=
  { a with rxAvail := a.rxAvail + min len (kAntennaRxBytes - a.rxAvail) }

/-- The listeners `deliver_tcp` wakes when the handshake of `i` is complete. -/
def acceptWakes (i : Fin kMaxAntennas) : List Wake :=
  (List.finRange kMaxAntennas).filterMap fun l =>
    if (w.sockets l).proto = .tcp ∧ (w.sockets l).tcpState = .listen ∧ i ∈
      (w.sockets l).acceptQueue then
      some (.ipc .antennaAccept (some l.val))
    else none

/-- `inotify_enqueue`: an event that finds the ring full is dropped. -/
def inotifyEnqueue (i : Fin EventTable.inotify.cap) (total : Nat) : World :=
  let n := w.inotifys i
  if n.inUse ∧ n.events.length < kInotifyEvents then
    w.setInotify i { n with events := n.events ++ [total] }
  else w

/-- What the producer changes, and the wake-ups that follow.  Where the source returns early nothing
happens. -/
def Producer.publish : Producer → World → World × List Wake
  | .aiwassWrite i len, w =>
    let p := w.pipes i
    if ¬ p.inUse ∨ p.readRefs = 0 ∨ p.avail = kAiwassBufSize ∨
        (len ≤ kAiwassPipeBuf ∧ kAiwassBufSize - p.avail < len) then (w, [])
    else
      (w.setPipe i { p with avail := p.avail + min len (kAiwassBufSize - p.avail) },
        [.pipeReaders i])
  | .aiwassCloseWrite i, w =>
    let p := w.pipes i
    if ¬ p.inUse then (w, [.pipeReaders i])
    else if p.readRefs = 0 ∧ p.writeRefs - 1 = 0 then (w.setPipe i {}, [.pipeReaders i])
    else (w.setPipe i { p with writeRefs := p.writeRefs - 1 }, [.pipeReaders i])
  | .incSend i len, w =>
    let c := w.channels i
    if c.kind ≠ .stream ∨ c.state ≠ .connected then (w, [])
    else
      match c.peer with
      | none => (w, [])
      | some j =>
        let peer := w.channels j
        let n := min len (kChannelRxBytes - peer.rxAvail)
        if peer.kind = .free ∨ n = 0 then (w, [])
        else
          (w.setChannel j { peer with rxAvail := peer.rxAvail + n },
            [.ipc .channelRecv (some j.val), .ipc .pollWait none])
  | .incClose i, w =>
    let c := w.channels i
    match c.peer with
    | some j =>
      if c.kind ≠ .stream ∨ (w.channels j).kind = .free then (w.setChannel i {}, [])
      else
        ((w.setChannel j { w.channels j with state := .peerGone, peer := none }).setChannel i {},
          [.ipc .channelRecv (some j.val), .ipc .pollWait none])
    | none => (w.setChannel i {}, [])
  | .incConnect client server child, w =>
    let s := w.channels server
    if (w.channels client).kind ≠ .stream ∨ (w.channels client).state = .connected ∨
        s.kind ≠ .stream ∨ s.state ≠ .listen ∨ s.backlog ≤ s.acceptQueue.length ∨
        (w.channels child).kind ≠ .free then (w, [])
    else
      let w := w.setChannel child { kind := .stream, state := .connected, peer := some client }
      let w := w.setChannel client
        { w.channels client with state := .connected, peer := some child }
      (w.setChannel server
          { w.channels server with acceptQueue := (w.channels server).acceptQueue ++ [child] },
        [.ipc .channelAccept (some server.val), .ipc .pollWait none])
  | .srMasterWrite i len, w =>
    let r := w.relays i
    let n := min len (kRelayRingBytes - r.m2sAvail)
    if ¬ r.inUse ∨ n = 0 then (w, [])
    else
      (w.setRelay i { r with m2sAvail := r.m2sAvail + n }, [.ipc .ptySlaveRead (some i.val)])
  | .srSlaveWrite i bytes, w =>
    let r := w.relays i
    let n := slaveEmit r.onlcr (kRelayRingBytes - r.s2mAvail) bytes
    if ¬ r.inUse ∨ n = 0 then (w, [])
    else
      (w.setRelay i { r with s2mAvail := r.s2mAvail + n }, [.ipc .ptyMasterRead (some i.val)])
  | .srOpenSlave i, w =>
    let r := w.relays i
    if ¬ r.inUse ∨ r.slaveLocked then (w, [])
    else (w.setRelay i { r with slaveRefs := r.slaveRefs + 1, slaveEverOpened := true }, [])
  | .srCloseMaster i, w =>
    let r := w.relays i
    if ¬ r.inUse then (w, [])
    else
      (w.setRelay i { r with masterRefs := r.masterRefs - 1 },
        if r.masterRefs - 1 = 0 then [.ipc .ptySlaveRead (some i.val)] else [])
  | .srCloseSlave i, w =>
    let r := w.relays i
    if ¬ r.inUse then (w, [])
    else
      (w.setRelay i { r with slaveRefs := r.slaveRefs - 1 },
        if r.slaveRefs - 1 = 0 then [.ipc .ptyMasterRead (some i.val)] else [])
  | .srFree i, w =>
    let r := w.relays i
    if r.masterRefs = 0 ∧ r.slaveRefs = 0 then (w.setRelay i {}, []) else (w, [])
  | .tcpSyn listener child, w =>
    let l := w.sockets listener
    if l.proto ≠ .tcp ∨ l.tcpState ≠ .listen ∨ l.backlog ≤ l.acceptQueue.length ∨
        (w.sockets child).proto ≠ .free then (w, [])
    else
      ((w.setSocket child { proto := .tcp, tcpState := .synRcvd }).setSocket listener
        { l with acceptQueue := l.acceptQueue ++ [child] }, [])
  | .tcpEstablish i, w =>
    let a := w.sockets i
    if a.proto ≠ .tcp ∨ a.tcpState ≠ .synRcvd then (w, [])
    else (w.setSocket i { a with tcpState := .established }, acceptWakes w i)
  | .tcpCoalesced i len, w =>
    let a := w.sockets i
    if a.proto ≠ .tcp ∨ a.tcpState ≠ .established then (w, [])
    else (w.setSocket i (rxBytesPut a len), [])
  | .tcpData i len early, w =>
    let a := w.sockets i
    let got := min len (kAntennaRxBytes - a.rxAvail)
    if a.proto ≠ .tcp ∨
        (a.tcpState ≠ .established ∧ a.tcpState ≠ .finWait1 ∧ a.tcpState ≠ .finWait2) ∨
        got = 0 then (w, [])
    else
      (w.setSocket i (rxBytesPut (rxBytesPut a len) early), [.ipc .antennaRecv (some i.val)])
  | .tcpFin i, w =>
    let a := w.sockets i
    if a.proto ≠ .tcp then (w, [])
    else
      match a.tcpState with
      | .established =>
        (w.setSocket i { a with peerFin := true, tcpState := .closeWait },
          [.ipc .antennaRecv (some i.val)])
      | .finWait2 =>
        (w.setSocket i { a with peerFin := true, tcpState := .timeWait },
          [.ipc .antennaRecv (some i.val)])
      | .finWait1 =>
        (w.setSocket i { a with peerFin := true, tcpState := .closing },
          [.ipc .antennaRecv (some i.val)])
      | _ => (w, [])
  | .tcpReset i, w =>
    let a := w.sockets i
    if a.proto ≠ .tcp then (w, [])
    else (w.setSocket i { a with tcpState := .reset }, [])
  | .eventfdWrite i v, w =>
    let e := w.eventfds i
    if ¬ e.inUse ∨ v ≥ 2 ^ 64 - 1 then (w, [])
    else
      let counter := if 2 ^ 64 - 2 - e.counter < v then 2 ^ 64 - 2 else e.counter + v
      (w.setEventFd i { e with counter := counter },
        if 0 < counter then [.ipc .eventfdRead (some i.val), .ipc .epollWait none] else [])
  | .kazakiriNotify matched, w =>
    (matched.foldl (fun w m => inotifyEnqueue w m.1 m.2) w,
      if matched = [] then []
      else [.ipc .inotifyRead none, .ipc .pollWait none, .ipc .epollWait none])

/-- A producer does not close the last reference of the channel the reader is at: the reader has
one. -/
def Producer.leaves : Producer → Call → Bool
  | .incClose i, .unixRead j _ => i ≠ j
  | .incClose i, .unixRecvmsg j _ => i ≠ j
  | .incClose i, .unixAccept j => i ≠ j
  | _, _ => true

end IndexOS.Blocking
