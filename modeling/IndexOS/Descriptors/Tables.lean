import Mathlib.Algebra.GroupWithZero.Nat
import Mathlib.Data.Fin.Basic

/-!
# Descriptors and the objects behind them

A descriptor of a process names an object of the kernel: an end of a pipe (`aiwass.cpp`), a TCP or
UDP socket (`antenna.cpp`), an AF_UNIX channel (`imaginary_number_channel.cpp`), a side of a pty
(`sister_relay.cpp`), or one of the objects of `event_queue.cpp`.  Every object lives in a table of
its own and carries a reference count; its slot is free again when the count is 0.

This module is the tables and the functions of the source that allocate an object, take a reference
and drop one:

* `aiwassCreate`, `antennaSocket`, `incSocket`, `incSocketpair`, `cellAlloc`, `srAlloc`,
  `srOpenSlave`;
* `refFdBackend` — `linux_ref_fd_backend`;
* `releaseFdBackend` — `linux_release_fd_backend`.  Closing the last reference of a channel drops
  the descriptors that are in flight in it, which may close further channels; the depth of that
  recursion is the first argument.

Of a descriptor only its kind, the object it names and its close-on-exec flag are kept.  Contents of
buffers are left out, except that a channel counts the bytes that went through it, because a
descriptor in flight is handed over when the bytes it was sent with have been read.
-/

set_option autoImplicit false

namespace IndexOS.Descriptors

open Function (update)

/-- `FdKind` -/
inductive FdKind where
  | closed
  | console
  | file
  | pipeRead
  | pipeWrite
  | socket
  | devnull
  | devzero
  | devrandom
  | devtty
  | unixSock
  | eventfd
  | epoll
  | timerfd
  | signalfd
  | inotify
  | ptyMaster
  | ptySlave
deriving DecidableEq

/-- `Fd`.  An index is absent where the source has -1. -/
structure Fd where
  kind : FdKind := .closed
  pipeIdx : Option Nat := none
  sockIdx : Option Nat := none
  cloexec : Bool := false
deriving DecidableEq

/-- The tables of `event_queue.cpp`, which all work the same way. -/
inductive EventTable where
  | eventfd
  | epoll
  | timerfd
  | signalfd
  | inotify
deriving DecidableEq

/-! ## The tables -/

def kMaxFds : Nat := 64
def kMaxEspers : Nat := 64

instance : NeZero kMaxEspers := ⟨by decide⟩
def kMaxAiwass : Nat := 16
def kMaxAntennas : Nat := 16
def kMaxChannels : Nat := 16
def kMaxRelays : Nat := 8
def kChannelScmMax : Nat := 4
def kAcceptCap : Nat := 4
def kChannelRxBytes : Nat := 8192
def kChannelPathCap : Nat := 108

def EventTable.cap : EventTable → Nat
  | .eventfd => 16
  | .epoll => 8
  | .timerfd => 16
  | .signalfd => 16
  | .inotify => 8

/-- A backend object, and each of the two ends of a pipe and of a pty on its own. -/
inductive Obj where
  | pipeRead (i : Fin kMaxAiwass)
  | pipeWrite (i : Fin kMaxAiwass)
  | socket (i : Fin kMaxAntennas)
  | channel (i : Fin kMaxChannels)
  | event (t : EventTable) (i : Fin t.cap)
  | ptyMaster (i : Fin kMaxRelays)
  | ptySlave (i : Fin kMaxRelays)
deriving DecidableEq

/-- An index of a descriptor, when it is one of a table of `n` slots. -/
def slot (n : Nat) (idx : Option Nat) : Option (Fin n) :=
  idx.bind fun i => if h : i < n then some ⟨i, h⟩ else none

/-- The object a descriptor names. -/
def Fd.names (f : Fd) : Option Obj :=
  match f.kind with
  | .pipeRead => (slot _ f.pipeIdx).map .pipeRead
  | .pipeWrite => (slot _ f.pipeIdx).map .pipeWrite
  | .socket => (slot _ f.sockIdx).map .socket
  | .unixSock => (slot _ f.sockIdx).map .channel
  | .eventfd => (slot _ f.sockIdx).map (.event .eventfd)
  | .epoll => (slot _ f.sockIdx).map (.event .epoll)
  | .timerfd => (slot _ f.sockIdx).map (.event .timerfd)
  | .signalfd => (slot _ f.sockIdx).map (.event .signalfd)
  | .inotify => (slot _ f.sockIdx).map (.event .inotify)
  | .ptyMaster => (slot _ f.sockIdx).map .ptyMaster
  | .ptySlave => (slot _ f.sockIdx).map .ptySlave
  | .closed | .console | .file | .devnull | .devzero | .devrandom | .devtty => none

/-- `Aiwass` -/
structure Aiwass where
  inUse : Bool := false
  readRefs : Nat := 0
  writeRefs : Nat := 0

inductive AntennaProto where
  | free
  | udp
  | tcp
deriving DecidableEq

inductive TcpState where
  | closed
  | listen
  | synSent
  | synRcvd
  | established
  | finWait1
  | finWait2
  | closeWait
  | lastAck
  | closing
  | timeWait
  | reset
deriving DecidableEq

/-- `Antenna`; `bound` when it has a local port.  The accept queue holds the
sockets of connections that have not been accepted. -/
structure Antenna where
  proto : AntennaProto := .free
  bound : Bool := false
  tcpState : TcpState := .closed
  refs : Nat := 0
  acceptQueue : List (Fin kMaxAntennas) := []
  backlog : Nat := 0

inductive ChannelKind where
  | free
  | stream
  | dgram
deriving DecidableEq

inductive ChannelState where
  | closed
  | bound
  | listen
  | connected
  | peerGone
deriving DecidableEq

/-- `INChannel`; a descriptor in flight comes with the position in the stream it was sent at. -/
structure Channel where
  kind : ChannelKind := .free
  state : ChannelState := .closed
  refs : Nat := 0
  path : List UInt8 := []
  peer : Option (Fin kMaxChannels) := none
  acceptQueue : List (Fin kMaxChannels) := []
  backlog : Nat := 0
  rxAvail : Nat := 0
  rxTotal : Nat := 0
  scmPending : List (Fd × Nat) := []

/-- `SisterRelay` -/
structure Relay where
  inUse : Bool := false
  masterRefs : Nat := 0
  slaveRefs : Nat := 0
  slaveLocked : Bool := false
  slaveEverOpened : Bool := false

/-- What the objects of `event_queue.cpp` have in common. -/
structure Cell where
  inUse : Bool := false
  refs : Nat := 0

/-- A process: whether it has not ended, and its descriptors. -/
structure Proc where
  live : Bool := false
  fds : Fin kMaxFds → Fd := fun _ => {}

structure State where
  procs : Fin kMaxEspers → Proc := fun _ => {}
  pipes : Fin kMaxAiwass → Aiwass := fun _ => {}
  antennas : Fin kMaxAntennas → Antenna := fun _ => {}
  channels : Fin kMaxChannels → Channel := fun _ => {}
  relays : Fin kMaxRelays → Relay := fun _ => {}
  events : (t : EventTable) → Fin t.cap → Cell := fun _ _ => {}

variable (s : State)

namespace State

def setPipe (i : Fin kMaxAiwass) (a : Aiwass) : State :=
  { s with pipes := update s.pipes i a }

def setAntenna (i : Fin kMaxAntennas) (a : Antenna) : State :=
  { s with antennas := update s.antennas i a }

def setChannel (i : Fin kMaxChannels) (c : Channel) : State :=
  { s with channels := update s.channels i c }

def setRelay (i : Fin kMaxRelays) (r : Relay) : State :=
  { s with relays := update s.relays i r }

def setEvent (t : EventTable) (i : Fin t.cap) (c : Cell) : State :=
  { s with events := update s.events t (update (s.events t) i c) }

def setProc (p : Fin kMaxEspers) (x : Proc) : State :=
  { s with procs := update s.procs p x }

def setFd (p : Fin kMaxEspers) (i : Fin kMaxFds) (f : Fd) : State :=
  s.setProc p { s.procs p with fds := update (s.procs p).fds i f }

end State

/-- The counters of sixteen bits, and those of thirty-two. -/
def inc16 (n : Nat) : Nat := (n + 1) % 2 ^ 16
def inc32 (n : Nat) : Nat := (n + 1) % 2 ^ 32

/-! ## Allocation -/

/-- `aiwass_create`; the heap may have no room for the buffer. -/
def aiwassCreate (heap : Bool) : Option (Fin kMaxAiwass × State) :=
  match (List.finRange kMaxAiwass).find? (fun i => !(s.pipes i).inUse) with
  | none => none
  | some i =>
    if heap then some (i, s.setPipe i { inUse := true, readRefs := 1, writeRefs := 1 }) else none

/-- `antenna_socket_udp`, `antenna_socket_tcp` -/
def antennaSocket (proto : AntennaProto) : Option (Fin kMaxAntennas × State) :=
  match (List.finRange kMaxAntennas).find? (fun i => (s.antennas i).proto = .free) with
  | none => none
  | some i => some (i, s.setAntenna i { proto := proto, refs := 1 })

/-- `inc_socket` -/
def incSocket (kind : ChannelKind) : Option (Fin kMaxChannels × State) :=
  match (List.finRange kMaxChannels).find? (fun i => (s.channels i).kind = .free) with
  | none => none
  | some i => some (i, s.setChannel i { kind := kind, refs := 1 })

/-- `inc_socketpair` -/
def incSocketpair : Option (Fin kMaxChannels × Fin kMaxChannels × State) :=
  match (List.finRange kMaxChannels).filter (fun i => (s.channels i).kind = .free) with
  | a :: b :: _ =>
    some (a, b,
      (s.setChannel a
        { kind := .stream, state := .connected, refs := 1, peer := some b }).setChannel b
        { kind := .stream, state := .connected, refs := 1, peer := some a })
  | _ => none

/-- `eventfd_alloc`, `epoll_alloc`, `timerfd_alloc`, `signalfd_alloc`, `inotify_alloc` -/
def cellAlloc (t : EventTable) : Option (Fin t.cap × State) :=
  match (List.finRange t.cap).find? (fun i => !(s.events t i).inUse) with
  | none => none
  | some i => some (i, s.setEvent t i { inUse := true, refs := 1 })

/-- `sr_alloc` -/
def srAlloc : Option (Fin kMaxRelays × State) :=
  match (List.finRange kMaxRelays).find? (fun i => !(s.relays i).inUse) with
  | none => none
  | some i => some (i, s.setRelay i { inUse := true, masterRefs := 1, slaveLocked := true })

/-- `sr_open_slave` -/
def srOpenSlave (i : Fin kMaxRelays) : Option State :=
  let r := s.relays i
  if r.inUse ∧ ¬ r.slaveLocked then
    some (s.setRelay i { r with slaveRefs := inc16 r.slaveRefs, slaveEverOpened := true })
  else none

/-- `sr_unlock` -/
def srUnlock (i : Fin kMaxRelays) : State :=
  let r := s.relays i
  if r.inUse then s.setRelay i { r with slaveLocked := false } else s

/-! ## Taking a reference -/

def aiwassIncRead (i : Fin kMaxAiwass) : State :=
  let p := s.pipes i
  if p.inUse then s.setPipe i { p with readRefs := inc32 p.readRefs } else s

def aiwassIncWrite (i : Fin kMaxAiwass) : State :=
  let p := s.pipes i
  if p.inUse then s.setPipe i { p with writeRefs := inc32 p.writeRefs } else s

def antennaIncRef (i : Fin kMaxAntennas) : State :=
  let a := s.antennas i
  if a.proto ≠ .free then s.setAntenna i { a with refs := inc16 a.refs } else s

def incIncRef (i : Fin kMaxChannels) : State :=
  let c := s.channels i
  if c.kind ≠ .free then s.setChannel i { c with refs := inc16 c.refs } else s

/-- `eventfd_inc_ref`, `epoll_inc_ref`, `timerfd_inc_ref`, `signalfd_inc_ref`, `inotify_inc_ref` -/
def cellIncRef (t : EventTable) (s : State) (i : Fin t.cap) : State :=
  let c := s.events t i
  if c.inUse then s.setEvent t i { c with refs := inc16 c.refs } else s

def srMasterIncRef (i : Fin kMaxRelays) : State :=
  let r := s.relays i
  if r.inUse then s.setRelay i { r with masterRefs := inc16 r.masterRefs } else s

def srSlaveIncRef (i : Fin kMaxRelays) : State :=
  let r := s.relays i
  if r.inUse then s.setRelay i { r with slaveRefs := inc16 r.slaveRefs } else s

/-- A function of a table, called with the index of a descriptor. -/
def at' {n : Nat} (s : State) (idx : Option Nat) (f : State → Fin n → State) : State :=
  (slot n idx).elim s (f s)

/-- `linux_ref_fd_backend` -/
def refFdBackend (f : Fd) : State :=
  match f.kind with
  | .pipeRead => at' s f.pipeIdx aiwassIncRead
  | .pipeWrite => at' s f.pipeIdx aiwassIncWrite
  | .socket => at' s f.sockIdx antennaIncRef
  | .unixSock => at' s f.sockIdx incIncRef
  | .eventfd => at' s f.sockIdx (cellIncRef .eventfd)
  | .epoll => at' s f.sockIdx (cellIncRef .epoll)
  | .timerfd => at' s f.sockIdx (cellIncRef .timerfd)
  | .signalfd => at' s f.sockIdx (cellIncRef .signalfd)
  | .inotify => at' s f.sockIdx (cellIncRef .inotify)
  | .ptyMaster => at' s f.sockIdx srMasterIncRef
  | .ptySlave => at' s f.sockIdx srSlaveIncRef
  | .closed | .console | .file | .devnull | .devzero | .devrandom | .devtty => s

/-! ## Dropping a reference -/

/-- `maybe_free` -/
def maybeFree (i : Fin kMaxAiwass) : State :=
  if (s.pipes i).readRefs ≠ 0 ∨ (s.pipes i).writeRefs ≠ 0 then s else s.setPipe i {}

def aiwassCloseRead (i : Fin kMaxAiwass) : State :=
  let p := s.pipes i
  if p.inUse then maybeFree (s.setPipe i { p with readRefs := p.readRefs - 1 }) i else s

def aiwassCloseWrite (i : Fin kMaxAiwass) : State :=
  let p := s.pipes i
  if p.inUse then maybeFree (s.setPipe i { p with writeRefs := p.writeRefs - 1 }) i else s

/-- `antenna_close`.  The closing handshake of a TCP connection does not touch the table
otherwise. -/
def antennaClose (i : Fin kMaxAntennas) : State :=
  let a := s.antennas i
  if a.proto = .free then s
  else if a.refs - 1 = 0 then s.setAntenna i {}
  else s.setAntenna i { a with refs := a.refs - 1 }

/-- `eventfd_close`, `epoll_close`, `timerfd_close`, `signalfd_close`, `inotify_close` -/
def cellClose (t : EventTable) (s : State) (i : Fin t.cap) : State :=
  let c := s.events t i
  if c.inUse then
    if c.refs - 1 = 0 then s.setEvent t i {} else s.setEvent t i { c with refs := c.refs - 1 }
  else s

def srCloseMaster (i : Fin kMaxRelays) : State :=
  let r := s.relays i
  if r.inUse then
    if r.masterRefs - 1 = 0 ∧ r.slaveRefs = 0 then s.setRelay i {}
    else s.setRelay i { r with masterRefs := r.masterRefs - 1 }
  else s

def srCloseSlave (i : Fin kMaxRelays) : State :=
  let r := s.relays i
  if r.inUse then
    if r.slaveRefs - 1 = 0 ∧ r.masterRefs = 0 then s.setRelay i {}
    else s.setRelay i { r with slaveRefs := r.slaveRefs - 1 }
  else s

/-- The peer of a channel learns that it is gone. -/
def dropPeer (c : Channel) : State :=
  match c.peer with
  | none => s
  | some j =>
    if c.kind = .stream ∧ (s.channels j).kind ≠ .free then
      s.setChannel j { s.channels j with state := .peerGone, peer := none }
    else s

/-- The loop of `free_slot` over the descriptors in flight, from the `k`-th on.  A channel holds at
most `kChannelScmMax` of them. -/
def dropPending (release : State → Fd → State) (i : Fin kMaxChannels) : Nat → Nat → State → State
  | 0, _, s => s
  | n + 1, k, s =>
    match (s.channels i).scmPending[k]? with
    | none => s
    | some f => dropPending release i n (k + 1) (release s f.1)

/-- `free_slot` -/
def freeSlot (release : State → Fd → State) (s : State) (i : Fin kMaxChannels) : State :=
  (dropPending release i kChannelScmMax 0 s).setChannel i {}

/-- `inc_close` -/
def incClose (release : State → Fd → State) (s : State) (i : Fin kMaxChannels) : State :=
  let c := s.channels i
  if c.kind = .free then s
  else if 0 < c.refs - 1 then s.setChannel i { c with refs := c.refs - 1 }
  else freeSlot release (dropPeer (s.setChannel i { c with refs := c.refs - 1 }) c) i

/-- `linux_release_fd_backend`.  The number bounds how deep channels may close each other. -/
def releaseFdBackend : Nat → State → Fd → State
  | n, s, f =>
    match f.kind with
    | .pipeRead => at' s f.pipeIdx aiwassCloseRead
    | .pipeWrite => at' s f.pipeIdx aiwassCloseWrite
    | .socket => at' s f.sockIdx antennaClose
    | .unixSock =>
      match n with
      | 0 => s
      | n + 1 => at' s f.sockIdx (incClose (releaseFdBackend n))
    | .eventfd => at' s f.sockIdx (cellClose .eventfd)
    | .epoll => at' s f.sockIdx (cellClose .epoll)
    | .timerfd => at' s f.sockIdx (cellClose .timerfd)
    | .signalfd => at' s f.sockIdx (cellClose .signalfd)
    | .inotify => at' s f.sockIdx (cellClose .inotify)
    | .ptyMaster => at' s f.sockIdx srCloseMaster
    | .ptySlave => at' s f.sockIdx srCloseSlave
    | .closed | .console | .file | .devnull | .devzero | .devrandom | .devtty => s

/-- A depth no chain of closing channels needs to exceed. -/
def kDepth : Nat := kMaxChannels

def release (f : Fd) : State := releaseFdBackend kDepth s f

end IndexOS.Descriptors
