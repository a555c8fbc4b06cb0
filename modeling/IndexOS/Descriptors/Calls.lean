import IndexOS.Descriptors.Tables
import IndexOS.Lib.Traces

/-!
# The system calls on descriptors

The calls of `usermode.cpp` and `linux_abi.cpp` that create, copy, pass or drop descriptors, each as
a function on the state of `IndexOS.Descriptors.Tables`, and the runs they make.

* `linuxPipe2`, `socketCall`, `socketpairCall`, `accept4`, `eventCall`, `openPtmx`, `openPts`;
* `linuxDupFd`, `linuxDupFdFrom`, `linuxDup3Fd`, `linuxFdClose`;
* `linuxClone`, `execveCloexec`, `exitProc`, `faultGroupMember`;
* `sendmsg` and `recvmsg`, with the descriptors they pass;
* `bindCall`, `listenCall`, `connectCall` and the two events of the network, which fill accept
  queues.

A call that fails before it touches a descriptor or an object is not modelled, so the arguments of a
call are what is left of them after the checks of user memory.  What the rest of the kernel decides
is an argument of the call: whether the heap has room, whether a port is free, whether a caller
parks, and which slot a new process gets.
-/

set_option autoImplicit false

namespace IndexOS.Descriptors

variable (s : State) (p : Fin kMaxEspers)

/-! ## Descriptor tables -/

/-- The lowest closed descriptor from `lo` on. -/
def freeFd (lo : Nat) : Option (Fin kMaxFds) :=
  (List.finRange kMaxFds).find? fun i => lo ≤ i.val ∧ ((s.procs p).fds i).kind = .closed

variable (fd : Nat)

/-- The descriptor with number `fd`, when it is open. -/
def openFd : Option (Fin kMaxFds) :=
  (slot kMaxFds (some fd)).filter fun i => ((s.procs p).fds i).kind ≠ .closed

/-- A descriptor gets the lowest number from `lo` on, and its object is closed when there is
none. -/
def installFd (lo : Nat) (f : Fd) : State :=
  match freeFd s p lo with
  | some i => s.setFd p i f
  | none => release s f

/-- `release_esper_fd` -/
def releaseEsperFd (i : Fin kMaxFds) : State :=
  (release s ((s.procs p).fds i)).setFd p i {}

/-- `release_esper_pipes` -/
def releaseEsperPipes : State :=
  (List.finRange kMaxFds).foldl (fun s i => releaseEsperFd s p i) s

/-- `linux_fd_close` -/
def linuxFdClose : State :=
  match slot kMaxFds (some fd) with
  | none => s
  | some i =>
    let kind := ((s.procs p).fds i).kind
    if i.val < 3 ∧ (kind = .console ∨ kind = .devtty) then s else releaseEsperFd s p i

/-- `linux_dup_fd_from`; from 0 it is `linux_dup_fd`. -/
def linuxDupFdFrom (fd minfd : Nat) : Option (Fin kMaxFds × State) :=
  match openFd s p fd, freeFd s p minfd with
  | some old, some i =>
    let f := (s.procs p).fds old
    some (i, refFdBackend (s.setFd p i f) f)
  | _, _ => none

/-- `linux_dup_fd` -/
def linuxDupFd : State :=
  ((linuxDupFdFrom s p fd 0).map Prod.snd).getD s

/-- `fcntl` with `F_DUPFD` and `F_DUPFD_CLOEXEC` -/
def fcntlDupfd (fd minfd : Nat) (cloexec : Bool) : State :=
  match linuxDupFdFrom s p fd minfd with
  | none => s
  | some (i, s) => s.setFd p i { (s.procs p).fds i with cloexec := cloexec }

/-- `fcntl` with `F_SETFD` -/
def fcntlSetfd (cloexec : Bool) : State :=
  match openFd s p fd with
  | none => s
  | some i => s.setFd p i { (s.procs p).fds i with cloexec := cloexec }

/-- `linux_dup3_fd` -/
def linuxDup3Fd (fd newfd : Nat) : State :=
  match openFd s p fd, slot kMaxFds (some newfd) with
  | some old, some i =>
    if old = i then s
    else
      let s := releaseEsperFd s p i
      let f := (s.procs p).fds old
      refFdBackend (s.setFd p i f) f
  | _, _ => s

/-! ## New objects -/

/-- `openat` of a file or directory, or of `/dev/null`, `/dev/zero`, `/dev/random` and
`/dev/tty`. -/
def openPlain (kind : FdKind) : State :=
  if kind = .file ∨ kind = .devnull ∨ kind = .devzero ∨ kind = .devrandom ∨ kind = .devtty then
    match freeFd s p 3 with
    | some i => s.setFd p i { kind := kind }
    | none => s
  else s

/-- `openat` of `/dev/ptmx` -/
def openPtmx : State :=
  match srAlloc s with
  | none => s
  | some (i, s) => installFd s p 3 { kind := .ptyMaster, sockIdx := some i }

/-- `openat` of `/dev/pts/n` -/
def openPts (n : Nat) : State :=
  match slot kMaxRelays (some n) with
  | none => s
  | some i =>
    match srOpenSlave s i with
    | none => s
    | some s => installFd s p 3 { kind := .ptySlave, sockIdx := some i }

/-- `ioctl` with `TIOCSPTLCK` -/
def unlockpt : State :=
  match openFd s p fd with
  | none => s
  | some i =>
    let f := (s.procs p).fds i
    if f.kind = .ptyMaster then at' s f.sockIdx srUnlock else s

/-- `linux_pipe2` -/
def linuxPipe2 (heap : Bool) : State :=
  match (List.finRange kMaxFds).filter
      (fun i => 3 ≤ i.val ∧ ((s.procs p).fds i).kind = .closed) with
  | r :: w :: _ =>
    match aiwassCreate s heap with
    | none => s
    | some (i, s) =>
      (s.setFd p r { kind := .pipeRead, pipeIdx := some i }).setFd p w
        { kind := .pipeWrite, pipeIdx := some i }
  | _ => s

inductive SockType where
  | inetStream
  | inetDgram
  | unixStream
  | unixDgram

/-- `socket` -/
def socketCall (t : SockType) (cloexec : Bool) : State :=
  let inet (proto : AntennaProto) : State :=
    match antennaSocket s proto with
    | none => s
    | some (i, s) => installFd s p 0 { kind := .socket, sockIdx := some i, cloexec := cloexec }
  let unix (kind : ChannelKind) : State :=
    match incSocket s kind with
    | none => s
    | some (i, s) => installFd s p 0 { kind := .unixSock, sockIdx := some i, cloexec := cloexec }
  match t with
  | .inetStream => inet .tcp
  | .inetDgram => inet .udp
  | .unixStream => unix .stream
  | .unixDgram => unix .dgram

/-- `socketpair` -/
def socketpairCall : State :=
  match incSocketpair s with
  | none => s
  | some (a, b, s) =>
    let fa : Fd := { kind := .unixSock, sockIdx := some a }
    let fb : Fd := { kind := .unixSock, sockIdx := some b }
    match (List.finRange kMaxFds).filter (fun i => ((s.procs p).fds i).kind = .closed) with
    | i :: j :: _ => (s.setFd p i fa).setFd p j fb
    | _ => release (release s fa) fb

def EventTable.fdKind : EventTable → FdKind
  | .eventfd => .eventfd
  | .epoll => .epoll
  | .timerfd => .timerfd
  | .signalfd => .signalfd
  | .inotify => .inotify

/-- `eventfd2`, `epoll_create1`, `timerfd_create`, `signalfd4` and `inotify_init1` -/
def eventCall (t : EventTable) : State :=
  match cellAlloc s t with
  | none => s
  | some (i, s) => installFd s p 0 { kind := t.fdKind, sockIdx := some i }

/-! ## Connections -/

/-- `antenna_bind` and `inc_bind`; `ok` when the port is free. -/
def bindCall (path : List UInt8) (ok : Bool) : State :=
  match openFd s p fd with
  | none => s
  | some k =>
    let f := (s.procs p).fds k
    match f.kind with
    | .socket =>
      at' s f.sockIdx fun s i =>
        let a := s.antennas i
        if a.proto ≠ .free ∧ ok then s.setAntenna i { a with bound := true } else s
    | .unixSock =>
      at' s f.sockIdx fun s i =>
        let c := s.channels i
        if c.kind ≠ .free ∧ (c.state = .closed ∨ c.state = .bound) ∧
            ¬ (path ≠ [] ∧ ∃ j, (s.channels j).kind = c.kind ∧ (s.channels j).path = path) then
          s.setChannel i { c with path := path.take kChannelPathCap, state := .bound }
        else s
    | _ => s

def backlogOf (backlog : Nat) : Nat := min (if backlog = 0 then 1 else backlog) kAcceptCap

/-- `antenna_tcp_listen` and `inc_listen` -/
def listenCall (fd backlog : Nat) : State :=
  match openFd s p fd with
  | none => s
  | some k =>
    let f := (s.procs p).fds k
    match f.kind with
    | .socket =>
      at' s f.sockIdx fun s i =>
        let a := s.antennas i
        if a.proto = .tcp ∧ a.tcpState = .closed ∧ a.bound then
          s.setAntenna i { a with tcpState := .listen, backlog := backlogOf (backlog % 2 ^ 32) }
        else s
    | .unixSock =>
      at' s f.sockIdx fun s i =>
        let c := s.channels i
        if c.kind = .stream ∧ c.state = .bound ∧ c.path ≠ [] then
          s.setChannel i { c with state := .listen, backlog := backlogOf (backlog % 2 ^ 32) }
        else s
    | _ => s

/-- `inc_connect` -/
def incConnect (i : Fin kMaxChannels) (path : List UInt8) : State :=
  if (s.channels i).kind = .stream ∧ (s.channels i).state ≠ .connected ∧ path ≠ [] then
    match (List.finRange kMaxChannels).find? (fun j =>
        (s.channels j).kind = .stream ∧ (s.channels j).state = .listen ∧
        (s.channels j).path = path) with
    | none => s
    | some srv =>
      if (s.channels srv).backlog ≤ (s.channels srv).acceptQueue.length then s
      else
        match (List.finRange kMaxChannels).find? (fun j => (s.channels j).kind = .free) with
        | none => s
        | some child =>
          let s := s.setChannel child
            { kind := .stream, state := .connected, refs := 1, peer := some i,
              path := (s.channels srv).path }
          let s := s.setChannel i { s.channels i with state := .connected, peer := some child }
          s.setChannel srv
            { s.channels srv with acceptQueue := (s.channels srv).acceptQueue ++ [child] }
  else s

/-- `antenna_connect` and `inc_connect`; `ok` when a local port was found. -/
def connectCall (path : List UInt8) (ok : Bool) : State :=
  match openFd s p fd with
  | none => s
  | some k =>
    let f := (s.procs p).fds k
    match f.kind with
    | .socket =>
      at' s f.sockIdx fun s i =>
        let a := s.antennas i
        if a.proto = .udp ∧ ok then s.setAntenna i { a with bound := true }
        else if a.proto = .tcp ∧ a.tcpState = .closed ∧ ok then
          s.setAntenna i { a with bound := true, tcpState := .synSent }
        else s
    | .unixSock => at' s f.sockIdx fun s i => incConnect s i path
    | _ => s

/-- A SYN for a listening socket, in `antenna_deliver_tcp`. -/
def deliverSyn (l : Fin kMaxAntennas) : State :=
  if (s.antennas l).proto = .tcp ∧ (s.antennas l).tcpState = .listen ∧
      (s.antennas l).acceptQueue.length < (s.antennas l).backlog then
    match (List.finRange kMaxAntennas).find? (fun j => (s.antennas j).proto = .free) with
    | none => s
    | some child =>
      let s := s.setAntenna child { proto := .tcp, bound := true, refs := 1, tcpState := .synRcvd }
      s.setAntenna l { s.antennas l with acceptQueue := (s.antennas l).acceptQueue ++ [child] }
  else s

/-- Any other packet moves a connection from one state to another. -/
def deliverTcp (i : Fin kMaxAntennas) (st : TcpState) : State :=
  if (s.antennas i).proto = .tcp ∧ (s.antennas i).tcpState ≠ .listen ∧ st ≠ .listen then
    s.setAntenna i { s.antennas i with tcpState := st }
  else s

/-- `antenna_tcp_try_accept`: the first connection that is established. -/
def antennaTcpTryAccept (i : Fin kMaxAntennas) : Option (Fin kMaxAntennas × State) :=
  let a := s.antennas i
  let ready (j : Fin kMaxAntennas) : Bool := (s.antennas j).tcpState = .established
  if a.proto = .tcp ∧ a.tcpState = .listen then
    match a.acceptQueue.find? ready with
    | none => none
    | some child => some
      (child, s.setAntenna i { a with acceptQueue := a.acceptQueue.eraseP ready })
  else none

/-- `inc_try_accept` -/
def incTryAccept (i : Fin kMaxChannels) : Option (Fin kMaxChannels × State) :=
  let c := s.channels i
  if c.kind = .stream ∧ c.state = .listen then
    match c.acceptQueue with
    | [] => none
    | child :: rest => some (child, s.setChannel i { c with acceptQueue := rest })
  else none

/-- The descriptor of the connection `accept4` takes from the queue of a listener. -/
def tryAccept (f : Fd) : Option (Fd × State) :=
  match f.kind with
  | .socket =>
    (slot _ f.sockIdx).bind fun i =>
      (antennaTcpTryAccept s i).map fun r => ({ kind := .socket, sockIdx := some r.1 }, r.2)
  | .unixSock =>
    (slot _ f.sockIdx).bind fun i =>
      (incTryAccept s i).map fun r => ({ kind := .unixSock, sockIdx := some r.1 }, r.2)
  | _ => none

/-- `accept4`; a caller that finds nothing parks, which changes no table. -/
def accept4 : State :=
  match openFd s p fd with
  | none => s
  | some k =>
    match tryAccept s ((s.procs p).fds k) with
    | none => s
    | some (f, s) => installFd s p 0 f

/-! ## Bytes and descriptors through a channel -/

/-- The channel at the other end, when there is one to send to. -/
def sendPeer (i : Fin kMaxChannels) : Option (Fin kMaxChannels) :=
  let c := s.channels i
  if c.kind = .stream ∧ c.state = .connected then
    c.peer.filter fun j => (s.channels j).kind ≠ .free
  else none

/-- `inc_send` -/
def incSend (i : Fin kMaxChannels) (len : Nat) : State :=
  match sendPeer s i with
  | none => s
  | some j =>
    let c := s.channels j
    let n := min len (kChannelRxBytes - c.rxAvail)
    s.setChannel j { c with rxAvail := c.rxAvail + n, rxTotal := (c.rxTotal + n) % 2 ^ 64 }

/-- `inc_try_recv`: nothing when the channel is none to receive from, otherwise how much was read
and whether the peer is gone. -/
def incTryRecv (i : Fin kMaxChannels) (cap : Nat) : Option (Nat × Bool × State) :=
  let c := s.channels i
  if c.kind = .stream then
    let n := min cap c.rxAvail
    some (n, c.state = .peerGone, s.setChannel i { c with rxAvail := c.rxAvail - n })
  else none

/-- `inc_attach_fds`: how many were attached. -/
def incAttachFds (i : Fin kMaxChannels) (fds : List Fd) : Nat × State :=
  match sendPeer s i with
  | none => (0, s)
  | some j =>
    let c := s.channels j
    let moved := fds.take (kChannelScmMax - c.scmPending.length)
    (moved.length,
      s.setChannel j { c with scmPending := c.scmPending ++ moved.map fun f => (f, c.rxTotal) })

/-- `inc_take_fds` -/
def incTakeFds (i : Fin kMaxChannels) (max : Nat) : List Fd × State :=
  let c := s.channels i
  if c.kind = .free then ([], s)
  else
    let consumed := (c.rxTotal + 2 ^ 64 - c.rxAvail) % 2 ^ 64
    let take := (c.scmPending.take max).takeWhile fun x => x.2 < consumed
    (take.map Prod.fst, s.setChannel i { c with scmPending := c.scmPending.drop take.length })

/-- The descriptors `sendmsg` passes: at most `kChannelScmMax` of those named that are open, with a
reference taken for each. -/
def collectFds : Nat → List Nat → State → List Fd × State
  | 0, _, s => ([], s)
  | _, [], s => ([], s)
  | n + 1, fd :: fds, s =>
    match openFd s p fd with
    | none => collectFds (n + 1) fds s
    | some i =>
      let f := (s.procs p).fds i
      let r := collectFds n fds (refFdBackend s f)
      (f :: r.1, r.2)

/-- `sendmsg` on a channel, with the descriptors of the control message when there is one. -/
def sendmsg (control : Option (List Nat)) (len : Nat) : State :=
  match openFd s p fd with
  | none => s
  | some k =>
    let f := (s.procs p).fds k
    if f.kind = .unixSock then
      at' s f.sockIdx fun s i =>
        let s :=
          match control with
          | none => s
          | some fds =>
            let passed := collectFds p kChannelScmMax fds s
            let attached := incAttachFds passed.2 i passed.1
            (passed.1.drop attached.1).foldl release attached.2
        incSend s i (min len 2048)
    else s

/-- What `recvmsg` takes out of a channel, with the room of the control buffer when there is one.  A
caller that finds nothing parks when it can. -/
def recvFds (i : Fin kMaxChannels) (want : Nat) (control : Option Nat) (parks : Bool) :
    List Fd × State :=
  let takeFds (s : State) : List Fd × State :=
    match control with
    | none => ([], s)
    | some room => incTakeFds s i (min room kChannelScmMax)
  if min want 2048 = 0 then takeFds s
  else
    match incTryRecv s i (min want 2048) with
    | none => ([], s)
    | some (n, peerGone, s') => if n = 0 ∧ ¬ peerGone ∧ parks then ([], s) else takeFds s'

/-- `recvmsg` on a channel -/
def recvmsg (fd want : Nat) (control : Option Nat) (parks : Bool) : State :=
  match openFd s p fd with
  | none => s
  | some k =>
    let f := (s.procs p).fds k
    if f.kind = .unixSock then
      at' s f.sockIdx fun s i =>
        let r := recvFds s i want control parks
        r.1.foldl (fun s f => installFd s p 0 f) r.2
    else s

/-- `write` on a channel -/
def writeCall (fd len : Nat) : State :=
  match openFd s p fd with
  | none => s
  | some k =>
    let f := (s.procs p).fds k
    if f.kind = .unixSock then at' s f.sockIdx fun s i => incSend s i (len % 2 ^ 32) else s

/-- `read` on a channel -/
def readCall (fd cap : Nat) : State :=
  match openFd s p fd with
  | none => s
  | some k =>
    let f := (s.procs p).fds k
    if f.kind = .unixSock then
      at' s f.sockIdx fun s i => ((incTryRecv s i (cap % 2 ^ 32)).map (·.2.2)).getD s
    else s

/-! ## Processes -/

/-- The descriptors `esper_create` gives a new process. -/
def newFds (i : Fin kMaxFds) : Fd := if i.val < 3 then { kind := .console } else {}

/-- `esper_create` -/
def esperCreate (c : Fin kMaxEspers) : State := s.setProc c { live := true, fds := newFds }

/-- The reference `linux_clone` takes for a descriptor it has copied. -/
def cloneRef (f : Fd) : State :=
  match f.kind with
  | .pipeRead => at' s f.pipeIdx aiwassIncRead
  | .pipeWrite => at' s f.pipeIdx aiwassIncWrite
  | .socket => at' s f.sockIdx antennaIncRef
  | .unixSock => at' s f.sockIdx incIncRef
  | .eventfd => at' s f.sockIdx (cellIncRef .eventfd)
  | .epoll => at' s f.sockIdx (cellIncRef .epoll)
  | .ptyMaster => at' s f.sockIdx srMasterIncRef
  | .ptySlave => at' s f.sockIdx srSlaveIncRef
  | _ => s

/-- The loop of `linux_clone` over the descriptors. -/
def inheritFds (c : Fin kMaxEspers) : State :=
  (List.finRange kMaxFds).foldl
    (fun s i => cloneRef (s.setFd c i ((s.procs p).fds i)) ((s.procs p).fds i)) s

/-- `linux_clone` into the slot `c`; `ok` when the address space could be copied. -/
def linuxClone (c : Fin kMaxEspers) (ok : Bool) : State :=
  if ok then inheritFds (esperCreate s c) p c
  else s.setProc c { fds := newFds }

/-- The end of a successful `execve` -/
def execveCloexec : State :=
  (List.finRange kMaxFds).foldl
    (fun s i =>
      if ((s.procs p).fds i).kind ≠ .closed ∧ ((s.procs p).fds i).cloexec then releaseEsperFd s p i
      else s) s

/-- A process has ended. -/
def State.bury : State := s.setProc p { s.procs p with live := false }

/-- `exit_and_schedule`, a member of `exit_group`, `fortis931_kill`, `fortis931_kill_pgrp` and
`kill_corrupt_esper`: the descriptors are released. -/
def exitProc : State := (releaseEsperPipes s p).bury p

/-- A member of a group that a fatal fault takes down.  When its parent waits for it in `wait4`, it
is reaped in the same critical section, and the loop that follows passes over its slot. -/
def faultGroupMember (reaped : Bool) : State :=
  if reaped then s.bury p else exitProc s p

/-! ## Runs -/

inductive Op where
  | spawn (c : Fin kMaxEspers)
  | openPlain (p : Fin kMaxEspers) (kind : FdKind)
  | openPtmx (p : Fin kMaxEspers)
  | openPts (p : Fin kMaxEspers) (n : Nat)
  | unlockpt (p : Fin kMaxEspers) (fd : Nat)
  | pipe2 (p : Fin kMaxEspers) (heap : Bool)
  | socket (p : Fin kMaxEspers) (t : SockType) (cloexec : Bool)
  | socketpair (p : Fin kMaxEspers)
  | event (p : Fin kMaxEspers) (t : EventTable)
  | bind (p : Fin kMaxEspers) (fd : Nat) (path : List UInt8) (ok : Bool)
  | listen (p : Fin kMaxEspers) (fd backlog : Nat)
  | connect (p : Fin kMaxEspers) (fd : Nat) (path : List UInt8) (ok : Bool)
  | accept4 (p : Fin kMaxEspers) (fd : Nat)
  | dup (p : Fin kMaxEspers) (fd : Nat)
  | dupfd (p : Fin kMaxEspers) (fd minfd : Nat) (cloexec : Bool)
  | setfd (p : Fin kMaxEspers) (fd : Nat) (cloexec : Bool)
  | dup3 (p : Fin kMaxEspers) (fd newfd : Nat)
  | close (p : Fin kMaxEspers) (fd : Nat)
  | write (p : Fin kMaxEspers) (fd len : Nat)
  | read (p : Fin kMaxEspers) (fd cap : Nat)
  | sendmsg (p : Fin kMaxEspers) (fd : Nat) (control : Option (List Nat)) (len : Nat)
  | recvmsg (p : Fin kMaxEspers) (fd want : Nat) (control : Option Nat) (parks : Bool)
  | clone (p c : Fin kMaxEspers) (ok : Bool)
  | execve (p : Fin kMaxEspers)
  | exit (p : Fin kMaxEspers)
  | fault (p : Fin kMaxEspers) (reaped : Bool)
  | syn (l : Fin kMaxAntennas)
  | packet (i : Fin kMaxAntennas) (st : TcpState)

/-- The process that makes the call. -/
def Op.caller : Op → Option (Fin kMaxEspers)
  | .openPlain p _ | .openPtmx p | .openPts p _ | .unlockpt p _ | .pipe2 p _ | .socket p _ _
  | .socketpair p | .event p _ | .bind p _ _ _ | .listen p _ _ | .connect p _ _ _ | .accept4 p _
  | .dup p _ | .dupfd p _ _ _ | .setfd p _ _ | .dup3 p _ _ | .close p _ | .write p _ _ | .read p _ _
  | .sendmsg p _ _ _ | .recvmsg p _ _ _ _ | .clone p _ _ | .execve p | .exit p | .fault p _ =>
    some p
  | .spawn _ | .syn _ | .packet _ _ => none

/-- A process that has ended makes no calls, and a new one gets a slot that is not taken. -/
def Op.enabled (s : State) (op : Op) : Bool :=
  op.caller.all (fun p => (s.procs p).live) &&
    match op with
    | .spawn c | .clone _ c _ => !(s.procs c).live
    | _ => true

def perform (s : State) : Op → State
  | .spawn c => esperCreate s c
  | .openPlain p kind => openPlain s p kind
  | .openPtmx p => openPtmx s p
  | .openPts p n => openPts s p n
  | .unlockpt p fd => unlockpt s p fd
  | .pipe2 p heap => linuxPipe2 s p heap
  | .socket p t cloexec => socketCall s p t cloexec
  | .socketpair p => socketpairCall s p
  | .event p t => eventCall s p t
  | .bind p fd path ok => bindCall s p fd path ok
  | .listen p fd backlog => listenCall s p fd backlog
  | .connect p fd path ok => connectCall s p fd path ok
  | .accept4 p fd => accept4 s p fd
  | .dup p fd => linuxDupFd s p fd
  | .dupfd p fd minfd cloexec => fcntlDupfd s p fd minfd cloexec
  | .setfd p fd cloexec => fcntlSetfd s p fd cloexec
  | .dup3 p fd newfd => linuxDup3Fd s p fd newfd
  | .close p fd => linuxFdClose s p fd
  | .write p fd len => writeCall s p fd len
  | .read p fd cap => readCall s p fd cap
  | .sendmsg p fd control len => sendmsg s p fd control len
  | .recvmsg p fd want control parks => recvmsg s p fd want control parks
  | .clone p c ok => linuxClone s p c ok
  | .execve p => execveCloexec s p
  | .exit p => exitProc s p
  | .fault p reaped => faultGroupMember s p reaped
  | .syn l => deliverSyn s l
  | .packet i st => deliverTcp s i st

def step (s : State) (op : Op) : State := if op.enabled s then perform s op else s

/-- The state after a run from boot, when no process has started and every table is empty. -/
abbrev run : List Op → State := Traces.run step {}

end IndexOS.Descriptors
