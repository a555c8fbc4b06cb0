import Mathlib.Data.List.DropRight
import IndexOS.Lib.RingBuffer
import IndexOS.Lib.Tally
import IndexOS.Lib.Traces

/-!
# AF_UNIX stream sockets

The channels of the Imaginary Number District: a table of sixteen sockets, each with a ring of the
bytes that its peer has sent and a short queue of descriptors in flight.  A descriptor in flight
carries the position that the next byte will have in the stream, and is handed out when that byte
has been read.

A call names the socket that its descriptor is for.  Of the tables of the processes there is left
how many descriptors each socket has (`held`), what the numbers of a control message stand for, and
how many numbers are free; a call that gives the number of a new descriptor answers 0.  Calls that
fail before they look at a socket are left out, and a call that parks is made again.

* `Channel`, `World` — the sockets, and a ledger of what has been reported;
* `World.incClose` … `World.recvmsg` — the source;
* `Call`, `World.exec`, `World.step`;
* `World.Sound`, `World.Answers` — what sockets should do, in every state and in every call;
* `World.Lawful` — the calls for which they do it.
-/

set_option autoImplicit false

namespace IndexOS.Channels

open Function (update)

def kMaxChannels : Nat := 16

def kChannelRxBytes : Nat := 8192

def kChannelPathCap : Nat := 108

def kChannelAcceptCap : Nat := 4

def kChannelScmMax : Nat := 4

/-- `sizeof(stage)` -/
def kStage : Nat := 2048

/-- the most parts a message may have -/
def kMaxIov : Nat := 1024

instance : NeZero kMaxChannels := ⟨by decide⟩

abbrev Slot := Fin kMaxChannels

inductive Kind where
  | free
  | stream
  | dgram
deriving DecidableEq

inductive State where
  | closed
  | bound
  | listen
  | connected
  | peerGone
deriving DecidableEq

inductive Fd where
  | unixSock (idx : Slot)
  /-- for something else than a channel -/
  | other (id : Nat)
deriving DecidableEq

/-- The channel that the descriptor is for. -/
def Fd.socket : Fd → Option Slot
  | .unixSock j => some j
  | .other _ => none

/-- How a socket stands to the others. -/
structure Face where
  kind : Kind := .free
  state : State := .closed
  refs : Nat := 0
  peer : Option Slot := none
  acceptQueue : List Slot := []

/-- `INChannel`; `scm` is `scm_pending` with `scm_pos`. -/
structure Channel extends Face where
  path : List UInt8 := []
  backlog : Nat := 0
  rx : RingBuffer UInt8 kChannelRxBytes := { buf := fun _ => 0 }
  rxTotal : Nat := 0
  scm : List (Fd × Nat) := []

namespace Channel

def room (c : Channel) : Nat := kChannelRxBytes - c.rx.avail

/-- How many bytes have been read from the ring. -/
def consumed (c : Channel) : Nat := c.rxTotal - c.rx.avail

end Channel

structure World where
  chans : Slot → Channel := fun _ => {}
  /-- how many descriptors are in the tables of the processes -/
  held : Slot → Nat := fun _ => 0
  /-- the descriptors that `sendmsg` has taken a reference for -/
  took : List Fd := []
  installed : List Fd := []
  released : List Fd := []
  /-- the bytes that have been reported as sent to this end of the connection -/
  sent : Slot → List UInt8 := fun _ => []
  /-- the bytes that have been read at this end -/
  got : Slot → List UInt8 := fun _ => []
  /-- for each descriptor in flight, where the bytes of its message end -/
  ends : Slot → List Nat := fun _ => []

/-- Memory to send from, and whether `ensure_user` finds it. -/
structure Piece where
  mapped : Bool := true
  data : List UInt8

/-- Memory to receive into. -/
structure Space where
  mapped : Bool := true
  len : Nat

variable (w : World)

variable (i : Slot)

namespace World

def modify (g : Channel → Channel) : World :=
  { w with chans := update w.chans i (g (w.chans i)) }

/-- Nothing has been sent to the socket that is, or will be, here. -/
def afresh : World :=
  { w with sent := update w.sent i [], got := update w.got i [],
           ends := update w.ends i [] }

/-- A free slot is taken, with `n` descriptors. -/
def allocate (c : Channel) (n : Nat) : World :=
  { w.afresh i with chans := update w.chans i c, held := update w.held i n }

def freeSlot : Option Slot := (List.finRange kMaxChannels).find? fun i => (w.chans i).kind = .free

/-- `find_bound` -/
def findBound (path : List UInt8) (kind : Kind) (state : State) : Option Slot :=
  if path = [] then none
  else (List.finRange kMaxChannels).find? fun i =>
    (w.chans i).kind = kind ∧ (w.chans i).state = state ∧ (w.chans i).path = path

/-- `find_bound_any_state` -/
def findBoundAnyState (path : List UInt8) (kind : Kind) : Option Slot :=
  if path = [] then none
  else (List.finRange kMaxChannels).find? fun i => (w.chans i).kind = kind ∧ (w.chans i).path = path

/-! ## Closing -/

/-- The peer is told. -/
def notifyPeer : World :=
  match (w.chans i).peer with
  | none => w
  | some p =>
    if (w.chans p).kind = .free then w
    else w.modify p fun c => { c with state := .peerGone, peer := none }

/-- The last reference is gone, and the peer has been told. -/
def told : World := (w.modify i fun c => { c with refs := 0 }).notifyPeer i

/-- `inc_close` and `free_slot`.  A socket in flight to this one is closed in turn; sixteen sockets
are as deep as that goes. -/
def incClose : Nat → World → Slot → World
  | 0, w, _ => w
  | fuel + 1, w, i =>
    if (w.chans i).kind = .free then w
    else if 0 < (w.chans i).refs - 1 then w.modify i fun c => { c with refs := c.refs - 1 }
    else
      let w := w.told i
      let scm := (w.chans i).scm
      let w := scm.foldl (fun w e => match e.1 with
        | .unixSock j => incClose fuel w j
        | .other _ => w) w
      { (w.afresh i).modify i fun _ => {} with released := w.released ++ scm.map Prod.fst }

/-- `linux_release_fd_backend` -/
def releaseFdBackend : Fd → World
  | .unixSock j => incClose kMaxChannels w j
  | .other _ => w

/-- `linux_ref_fd_backend` -/
def refFdBackend : Fd → World
  | .unixSock j => if (w.chans j).kind = .free then w else w.modify j fun c => { c with refs :=
    c.refs + 1 }
  | .other _ => w

/-- A descriptor of a table is closed. -/
def close : World :=
  { incClose kMaxChannels w i with held := update w.held i (w.held i - 1) }

/-! ## Connections -/

/-- `inc_socket`; with no number free for the descriptor, it is closed again. -/
def socket (number : Bool) : World × Option Int :=
  match w.freeSlot with
  | none => (w, some (-23))
  | some i =>
    let w := w.allocate i { kind := .stream, refs := 1 } 1
    if number then (w, some 0) else (w.close i, some (-24))

/-- `inc_socketpair`, with two numbers free or not -/
def socketpair (numbers : Bool) : World × Option Int :=
  match w.freeSlot with
  | none => (w, some (-23))
  | some a =>
    match (List.finRange kMaxChannels).find? fun i => (w.chans i).kind = .free ∧ i ≠ a with
    | none => (w, some (-23))
    | some b =>
      let w := w.allocate a { kind := .stream, state := .connected, refs := 1, peer := some b } 1
      let w := w.allocate b { kind := .stream, state := .connected, refs := 1, peer := some a } 1
      if numbers then (w, some 0) else ((w.close a).close b, some (-24))

/-- The path of an address, without the zeros at its end. -/
def sunPath (raw : List UInt8) : List UInt8 := (raw.take kChannelPathCap).rdropWhile (· = 0)

/-- `inc_bind` -/
def bind (path : List UInt8) : World × Option Int :=
  if (w.chans i).kind = .free ∨ ¬ ((w.chans i).state = .closed ∨ (w.chans i).state = .bound) ∨
      (w.findBoundAnyState path (w.chans i).kind).isSome then (w, some (-98))
  else (w.modify i fun c => { c with path, state := .bound }, some 0)

/-- `inc_listen` -/
def listen (backlog : Nat) : World × Option Int :=
  if (w.chans i).kind ≠ .stream ∨ (w.chans i).state ≠ .bound ∨
    (w.chans i).path = [] then (w, some (-22))
  else
    (w.modify i fun c =>
      { c with state :=
        .listen, backlog := min (if backlog = 0 then 1 else backlog) kChannelAcceptCap }, some 0)

/-- `inc_connect` -/
def connect (path : List UInt8) : World × Option Int :=
  if (w.chans i).kind ≠ .stream ∨ (w.chans i).state = .connected then (w, some (-111))
  else
    match w.findBound path .stream .listen with
    | none => (w, some (-111))
    | some l =>
      if (w.chans l).backlog ≤ (w.chans l).acceptQueue.length then (w, some (-111))
      else
        match w.freeSlot with
        | none => (w, some (-111))
        | some c =>
          -- the one reference of the child is for `accept`
          let child : Channel :=
            { kind := .stream, state := .connected, refs := 1, peer := some i
              path := (w.chans l).path }
          let w := (w.allocate c child 0).afresh i
          let w := w.modify i fun x => { x with state := .connected, peer := some c }
          (w.modify l fun x => { x with acceptQueue := x.acceptQueue ++ [c] }, some 0)

/-- `accept` with `inc_try_accept` -/
def accept (number : Bool) : World × Option Int :=
  if (w.chans i).kind ≠ .stream ∨ (w.chans i).state ≠ .listen then (w, none)
  else
    match (w.chans i).acceptQueue with
    | [] => (w, none)
    | c :: rest =>
      let w := w.modify i fun x => { x with acceptQueue := rest }
      let w := { w with held := update w.held c 1 }
      if number then (w, some 0) else (w.close c, some (-24))

/-! ## Bytes and descriptors -/

/-- Where the bytes of a send go. -/
def sink (t : Slot → Channel) (i : Slot) : Except Int Slot :=
  if (t i).kind = .free then .error (-9)
  else if (t i).kind ≠ .stream then .error (-107)
  else if (t i).state ≠ .connected then .error (-32)
  else
    match (t i).peer with
    | none => .error (-32)
    | some p => if (t p).kind = .free then .error (-32) else .ok p

/-- `inc_send` -/
def incSend (bytes : List UInt8) : World × Option Int :=
  match sink w.chans i with
  | .error e => (w, some e)
  | .ok p =>
    let stored := bytes.take (w.chans p).room
    ({ w.modify p fun c => { c with rx := c.rx.putAll stored, rxTotal :=
      c.rxTotal + stored.length } with
        sent := update w.sent p (w.sent p ++ stored) }, some stored.length)

/-- `write`; the length is cast to 32 bits -/
def write (src : List UInt8) : World × Option Int :=
  w.incSend i (src.take (src.length % 2 ^ 32))

/-- `inc_try_recv`, with what the caller has of the bytes -/
def incTryRecv (n usable : Nat) : World :=
  { w.modify i fun c => { c with rx := (c.rx.takeN n).2 } with
    got := update w.got i (w.got i ++ ((w.chans i).rx.takeN n).1.take usable) }

/-- `read`; it parks, or goes round its loop, where there is no answer -/
def read (len : Nat) : World × Option Int :=
  let n := min (len % 2 ^ 32) (w.chans i).rx.avail
  if (w.chans i).kind ≠ .stream then (w, none)
  else if 0 < n then (w.incTryRecv i n n, some n)
  else if (w.chans i).state = .peerGone then (w, some 0)
  else (w, none)

/-- The bytes of a message: those of its parts that are mapped, as many as the stage holds. -/
def gather : Option (List Piece) → List UInt8
  | none => []
  | some iov => if kMaxIov < iov.length then []
    else ((iov.filter Piece.mapped).flatMap Piece.data).take kStage

/-- The descriptors that a control message names and that are open. -/
def named (control : Option (List (Option Fd))) : List Fd := (control.getD []).filterMap id

/-- `inc_attach_fds`; `last` is where the bytes of the message will end -/
def incAttachFds (fds : List Fd) (last : Nat) : World × Nat :=
  match sink w.chans i with
  | .error _ => (w, 0)
  | .ok p =>
    let moved := fds.take (kChannelScmMax - (w.chans p).scm.length)
    ({ w.modify p fun c => { c with scm := c.scm ++ moved.map fun f => (f, c.rxTotal) } with
        ends := update w.ends p (w.ends p ++ moved.map fun _ => last) }, moved.length)

/-- Where the bytes of a message will end. -/
def lastOf (bytes : List UInt8) : Nat :=
  match sink w.chans i with
  | .error _ => 0
  | .ok p => (w.chans p).rxTotal + (bytes.take (w.chans p).room).length

/-- `sendmsg`; the descriptors are attached before the bytes are sent. -/
def sendmsg (iov : Option (List Piece)) (control : Option (List (Option Fd))) :
    World × Option Int :=
  let passed := (named control).take kChannelScmMax
  let w := { passed.foldl refFdBackend w with took := w.took ++ passed }
  let r := w.incAttachFds i passed (w.lastOf i (gather iov))
  -- the queue of the peer is full: the others are released again
  let excess := passed.drop r.2
  let w := { excess.foldl releaseFdBackend r.1 with released := r.1.released ++ excess }
  w.incSend i (gather iov)

/-- How many bytes the parts are for; the sum is one of 64 bits. -/
def capOf : Option (List Space) → Nat
  | none => 0
  | some iov => if kMaxIov < iov.length then 0 else (iov.map Space.len).sum % 2 ^ 64

def wantOf (iov : Option (List Space)) : Nat := min (capOf iov) kStage

/-- How many bytes the parts that are mapped can take. -/
def usableOf (iov : Option (List Space)) : Nat :=
    (((iov.getD []).filter Space.mapped).map Space.len).sum

/-- How many descriptors the control buffer has room for, with `ctrllen` bytes. -/
def roomOf : Option Nat → Nat
  | none => 0
  | some ctrllen => if ctrllen < 16 then 0 else min ((ctrllen - 16) / 4 % 2 ^ 32) kChannelScmMax

/-- `inc_take_fds`: the descriptors at the front whose position has been read -/
def due (c : Channel) (max : Nat) : List (Fd × Nat) :=
    (c.scm.take max).takeWhile fun e => e.2 < c.consumed

/-- `inc_take_fds` and `linux_install_fd`, with so many numbers free -/
def incTakeFds (room numbers : Nat) : World :=
  let taken := (due (w.chans i) room).map Prod.fst
  let excess := taken.drop numbers
  let w := { w.modify i fun c => { c with scm := c.scm.drop taken.length } with
    ends := update w.ends i ((w.ends i).drop taken.length) }
  let w := { w with
    installed := w.installed ++ taken.take numbers
    held := fun j => w.held j + ((taken.take numbers).filterMap Fd.socket).count j }
  { excess.foldl releaseFdBackend w with released := w.released ++ excess }

/-- `recvmsg` -/
def recvmsg (iov : Option (List Space)) (control : Option Nat) (numbers : Nat) :
    World × Option Int :=
  let n := min (wantOf iov) (w.chans i).rx.avail
  if 0 < wantOf iov ∧ (w.chans i).kind ≠ .stream then (w, some (-1))
  else if 0 < wantOf iov ∧ n = 0 ∧ (w.chans i).state ≠ .peerGone then (w, none)
  else ((w.incTryRecv i n (usableOf iov)).incTakeFds i (roomOf control) numbers, some n)

end World

/-! ## Runs -/

inductive Call where
  | socket (number : Bool)
  | socketpair (numbers : Bool)
  | bind (i : Slot) (raw : List UInt8)
  | listen (i : Slot) (backlog : Nat)
  | connect (i : Slot) (raw : List UInt8)
  | accept (i : Slot) (number : Bool)
  | write (i : Slot) (src : List UInt8)
  | read (i : Slot) (len : Nat)
  | sendmsg (i : Slot) (iov : Option (List Piece)) (control : Option (List (Option Fd)))
  | recvmsg (i : Slot) (iov : Option (List Space)) (control : Option Nat) (numbers : Nat)
  | close (i : Slot)

/-- The socket of the call. -/
def Call.slot : Call → Option Slot
  | .socket _ | .socketpair _ => none
  | .bind i _ | .listen i _ | .connect i _ | .accept i _ | .write i _ | .read i _ | .sendmsg i _ _
  | .recvmsg i _ _ _ | .close i => some i

namespace World

/-- Who calls has a descriptor. -/
def may (e : Call) : Bool := e.slot.all fun i => 0 < w.held i

def call : Call → World × Option Int
  | .socket number => w.socket number
  | .socketpair numbers => w.socketpair numbers
  | .bind i raw => w.bind i (sunPath raw)
  | .listen i backlog => w.listen i backlog
  | .connect i raw => w.connect i (sunPath raw)
  | .accept i number => w.accept i number
  | .write i src => w.write i src
  | .read i len => w.read i len
  | .sendmsg i iov control => w.sendmsg i iov control
  | .recvmsg i iov control numbers => w.recvmsg i iov control numbers
  | .close i => (w.close i, some 0)

/-- The call is made by somebody who has a descriptor, or by nobody. -/
def exec (e : Call) : World × Option Int := if w.may e then w.call e else (w, none)

def step (e : Call) : World := (w.exec e).1

/-! ## What sockets should do -/

/-- Somebody has a descriptor for the socket, or can accept it. -/
def Kept : Prop :=
  0 < w.held i ∨ ∃ l, i ∈ (w.chans l).acceptQueue ∧ (w.chans l).state = .listen ∧ 0 < w.held l

/-- How often the descriptor is in flight. -/
def flying (f : Fd) : Nat := tally (fun _ (c : Channel) => (c.scm.map Prod.fst).count f) w.chans

/-- What holds in every state. -/
structure Sound (w : World) : Prop where
  symmetric : ∀ i j, (w.chans i).peer = some j → (w.chans j).peer = some i
  bytes : ∀ i, w.got i <+: w.sent i
  /-- each descriptor is in flight, or has been installed once or released once -/
  once : ∀ f, w.took.count f = w.installed.count f + w.released.count f + w.flying f
  /-- no socket, with what is in flight to it, is forgotten -/
  kept : ∀ i, (w.chans i).kind ≠ .free ∨ (w.chans i).scm ≠ [] → w.Kept i

/-- The end of the stream. -/
def AtEnd : Prop := (w.chans i).state = .peerGone ∧ w.got i = w.sent i

/-- A `recvmsg` takes the stream of bytes at `i` from `w` to `w'`.  What it hands out comes with its
own message. -/
def InStep (w w' : World) (i : Slot) (room : Nat) : Prop :=
  ∀ n f pos last, (w.chans i).scm[n]? = some (f, pos) → (w.ends i)[n]? = some last →
    (n < room → (∃ x, (w.chans i).consumed ≤ x ∧ x < (w'.chans i).consumed ∧ pos ≤ x ∧ x < last) →
      n < (w.chans i).scm.length - (w'.chans i).scm.length) ∧
    (n < (w.chans i).scm.length - (w'.chans i).scm.length → (w.chans i).consumed <
      (w'.chans i).consumed → (w.chans i).consumed < last)

/-- What the answers say. -/
def Answers (e : Call) : Prop :=
  match e with
  | .read i len => 0 < len → (w.exec e).2 = some 0 → (w.step e).AtEnd i
  | .sendmsg _ _ control => ∀ r, (w.exec e).2 = some r →
    (r < 0 → (∀ j, ((w.step e).chans j).scm = (w.chans j).scm) ∧
      (w.step e).installed = w.installed) ∧ (0 ≤ r → (w.step e).took = w.took ++ named control)
  | .recvmsg i iov control _ =>
    (0 < ((iov.getD []).map Space.len).sum → (w.exec e).2 = some 0 → (w.step e).AtEnd i) ∧
      w.InStep (w.step e) i (roomOf control)
  | _ => True

/-- The calls for which sockets do as they should. -/
def Lawful (e : Call) : Prop :=
  match e with
  | .connect i _ => (w.chans i).state ≠ .listen ∧
    ((w.chans i).state = .peerGone → (w.chans i).rx.avail = 0 ∧ (w.chans i).scm = [])
  | .read i len => (0 < len → 0 < len % 2 ^ 32) ∧
    ∀ x ∈ (w.chans i).scm, (w.chans i).consumed + min (len % 2 ^ 32) (w.chans i).rx.avail ≤ x.2
  | .sendmsg i iov control => (∀ f ∈ named control, f.socket = none) ∧
    ((w.chans i).state = .connected → (named control).length ≤ kChannelScmMax ∧
      (named control ≠ [] → gather iov ≠ [] ∧ ∀ p, (w.chans i).peer = some p → 0 <
        (w.chans p).room))
  | .recvmsg i iov control _ =>
    (0 < ((iov.getD []).map Space.len).sum → 0 < wantOf iov) ∧
      min (wantOf iov) (w.chans i).rx.avail ≤ usableOf iov ∧
      ((w.chans i).scm.filter fun x =>
        x.2 < (w.chans i).consumed + min (wantOf iov) (w.chans i).rx.avail).length ≤ roomOf control
  | .close i => (w.chans i).refs = 1 → (w.chans i).acceptQueue = []
  | _ => True

end World
end IndexOS.Channels
