import IndexOS.Lib.RingBuffer
import Mathlib.Data.List.FinRange

/-!
# The table of sockets

`antenna.cpp`: sixteen sockets, UDP and TCP, in one table that is searched from the front.  A call
names a socket by its place in the table; a segment from the network is matched by ports and
addresses.  What is sent and who is woken is written down in the order in which it happens.

The waiting loops of the source (`tcp_pump_until`) take in whatever the network brings and look at
the retransmission timer.  So a call that waits is the section before the wait and, if it does
anything after it, one more: only `antenna_close` does, which frees the socket.  What the kernel
sends to itself is an arrival like any other.

* `Antenna` — a socket; `Table` — all of them, and the counter of ephemeral ports;
* `bind`, `connect`, `tcpListen`, `sendto`, `close` and the other calls;
* `Antenna.handle` — the state machine of TCP on one socket;
* `deliverTcp`, `deliverUdp` — a segment or a datagram from the network;
* `Event`, `Table.step` — one call or one arrival.
-/

set_option autoImplicit false

namespace IndexOS.Antennas

def kMaxAntennas : Nat := 16

def kAntennaRxBytes : Nat := 65536

def kAntennaAcceptCap : Nat := 4

def kAntennaOooSlots : Nat := 2

def kAntennaOooSegBytes : Nat := 1460

instance : NeZero kMaxAntennas := ⟨by decide⟩

abbrev Slot := Fin kMaxAntennas

instance : LawfulBEq Slot := inferInstance

abbrev Port := UInt16

structure Ip where
  a : UInt8
  b : UInt8
  c : UInt8
  d : UInt8
deriving DecidableEq

inductive Proto where
  | free
  | udp
  | tcp
deriving DecidableEq

inductive TcpState where
  | closed
  | listen
  | synSent
  | synRcvd
  | established
  | finWait1
  | finWait2
  | closeWait
  | lastAck
  | closing
  | timeWait
  | reset
deriving DecidableEq

/-! ## What is sent and received -/

structure Flags where
  fin : Bool := false
  syn : Bool := false
  rst : Bool := false
  psh : Bool := false
  ack : Bool := false
deriving DecidableEq

/-- A TCP segment from the network. -/
structure Segment where
  srcIp : Ip
  srcPort : Port
  dstPort : Port
  flags : Flags := {}
  seq : UInt32 := 0
  ack : UInt32 := 0
  payload : List UInt8 := []

/-- A UDP datagram from the network. -/
structure Datagram where
  srcIp : Ip
  srcPort : Port
  dstPort : Port
  payload : List UInt8

/-- A TCP segment given to the network. -/
structure Sent where
  dstIp : Ip
  srcPort : Port
  dstPort : Port
  flags : Flags
  seq : UInt32
  ack : UInt32
  window : Nat
  payload : List UInt8

inductive IpcWaitKind where
  | antennaAccept
  | antennaRecv
deriving DecidableEq

inductive Effect where
  | send (s : Sent)
  | wake (kind : IpcWaitKind) (i : Slot)

/-! ## A socket -/

/-- A segment that came too early; a place without data is empty. -/
structure OooSeg where
  seq : UInt32 := 0
  data : List UInt8 := []

structure Antenna where
  proto : Proto := .free
  refs : UInt16 := 0
  localPort : Port := 0
  remoteIp : Ip := ⟨0, 0, 0, 0⟩
  remotePort : Port := 0
  hasRemote : Bool := false
  rx : RingBuffer UInt8 kAntennaRxBytes := { buf := fun _ => 0 }
  lastAdvWin : Nat := 0
  tcpState : TcpState := .closed
  sndIss : UInt32 := 0
  sndNxt : UInt32 := 0
  sndUna : UInt32 := 0
  rcvIrs : UInt32 := 0
  rcvNxt : UInt32 := 0
  peerFin : Bool := false
  /-- what has been sent last and is not acknowledged -/
  txBuf : List UInt8 := []
  txSeq : UInt32 := 0
  txDeadlineTicks : Nat := 0
  txRetries : Nat := 0
  /-- the entries in use of the array -/
  acceptQueue : List Slot := []
  backlog : Nat := 0
  ooo : Fin kAntennaOooSlots → OooSeg := fun _ => {}

variable (a : Antenna)

namespace Antenna

/-- `antenna_rcv_window` -/
def rcvWindow : Nat :=
  let free := if kAntennaRxBytes ≤ a.rx.avail then 0 else kAntennaRxBytes - a.rx.avail
  if 0xffff < free then 0xffff else free

/-- The segment that a call of `misaka_mail_send_tcp` for this socket sends. -/
def segment (flags : Flags) (seq : UInt32) (payload : List UInt8) : Effect :=
  .send ⟨a.remoteIp, a.localPort, a.remotePort, flags, seq, a.rcvNxt, a.rcvWindow, payload⟩

/-- `tcp_send_ack` -/
def tcpSendAck : Antenna × List Effect :=
  ({ a with lastAdvWin := a.rcvWindow }, [a.segment { ack := true } a.sndNxt []])

/-- `rx_bytes_put`: as much as there is room for, and how much that was -/
def rxBytesPut (src : List UInt8) : Antenna × Nat :=
  let n := min src.length (kAntennaRxBytes - a.rx.avail)
  ({ a with rx := a.rx.putAll (src.take n) }, n)

/-- `a.rcv_nxt += rx_bytes_put(a, src, n)` -/
def store (src : List UInt8) : Antenna :=
  let r := a.rxBytesPut src
  { r.1 with rcvNxt := a.rcvNxt + UInt32.ofNat r.2 }

/-- One turn of the loop over the places in `tcp_drain_ooo`. -/
def drainSlot (k : Fin kAntennaOooSlots) : Antenna × Bool :=
  let s := a.ooo k
  if 0 < s.data.length ∧ s.seq = a.rcvNxt ∧ s.data.length ≤ kAntennaRxBytes - a.rx.avail then
    ({ a.store s.data with ooo := Function.update a.ooo k { s with data := [] } }, true)
  else (a, false)

/-- The loop over the places. -/
def drainRound : Antenna × Bool :=
  (List.finRange kAntennaOooSlots).foldl
    (fun (r : Antenna × Bool) k => ((r.1.drainSlot k).1, r.2 || (r.1.drainSlot k).2)) (a, false)

def drainRounds : Nat → Antenna → Antenna
  | 0, a => a
  | n + 1, a => if a.drainRound.2 then drainRounds n a.drainRound.1 else a.drainRound.1

/-- `tcp_drain_ooo`.  Every round with progress empties a place. -/
def tcpDrainOoo : Antenna := drainRounds (kAntennaOooSlots + 1) a

/-- `tcp_park_ooo` -/
def tcpParkOoo (seq : UInt32) (payload : List UInt8) : Antenna :=
  if payload.length = 0 ∨ kAntennaOooSegBytes < payload.length then a
  else if kAntennaRxBytes ≤ (seq - a.rcvNxt).toNat then a
  else if ∃ k, 0 < (a.ooo k).data.length ∧ (a.ooo k).seq = seq then a
  else
    match (List.finRange kAntennaOooSlots).find? fun k => (a.ooo k).data.length = 0 with
    | some k => { a with ooo := Function.update a.ooo k ⟨seq, payload⟩ }
    | none => a

/-- `tcp_window_update_ack`, after `n` bytes have been taken -/
def tcpWindowUpdateAck (n : Nat) : Antenna × List Effect :=
  if n = 0 then (a, [])
  else if a.lastAdvWin + 1460 ≤ kAntennaRxBytes - a.rx.avail then a.tcpSendAck
  else (a, [])

/-- `tcp_check_retransmit` -/
def tcpCheckRetransmit (now : Nat) : Antenna × List Effect :=
  if a.txBuf.length = 0 ∨ now < a.txDeadlineTicks then (a, [])
  else if 5 ≤ a.txRetries then ({ a with tcpState := .reset, txBuf := [] }, [])
  else
    ({ a with txRetries := a.txRetries + 1, txDeadlineTicks := now + 100 },
      [a.segment { ack := true, psh := true } a.txSeq a.txBuf])

/-! ### The state machine of TCP -/

/-- An acknowledgement clears what has arrived. -/
def onAck (seg : Segment) : Antenna :=
  if seg.flags.ack ∧ a.sndUna < seg.ack then
    let acked := seg.ack - a.sndUna
    let a :=
      if a.txBuf.length ≤ acked.toNat then { a with sndUna := seg.ack, txBuf := [] }
      else { a with sndUna := seg.ack, txBuf := a.txBuf.drop acked.toNat, txSeq := a.txSeq + acked }
    if a.tcpState = .finWait1 ∧ seg.ack = a.sndNxt then { a with tcpState := .finWait2 } else a
  else a

/-- Data in order goes to the ring, data that came too early is parked. -/
def onPayload (self : Slot) (seg : Segment) : Antenna × List Effect :=
  if seg.payload.length = 0 then (a, [])
  else if seg.seq = a.rcvNxt then
    let acked := (a.store seg.payload).tcpDrainOoo.tcpSendAck
    (acked.1, acked.2 ++ if 0 < (a.rxBytesPut seg.payload).2 then [.wake .antennaRecv self] else [])
  else if a.rcvNxt < seg.seq then (a.tcpParkOoo seg.seq seg.payload).tcpSendAck
  else a.tcpSendAck

/-- Where a FIN from the peer leads. -/
def afterFin : TcpState → TcpState
  | .established => .closeWait
  | .finWait2 => .timeWait
  | .finWait1 => .closing
  | s => s

/-- A FIN counts if everything before it has come. -/
def onFin (self : Slot) (seg : Segment) : Antenna × List Effect :=
  if seg.flags.fin ∧ seg.seq = a.rcvNxt then
    let acked := tcpSendAck { a with rcvNxt := a.rcvNxt + 1, peerFin := true }
    ({ acked.1 with tcpState := afterFin a.tcpState }, acked.2 ++ [.wake .antennaRecv self])
  else (a, [])

/-- The switch of `antenna_deliver_tcp`, for the socket that the segment is for.  `accepting` is who
is to be woken when the third segment of a handshake comes. -/
def handle (self : Slot) (accepting : List Effect) (seg : Segment) : Antenna × List Effect :=
  if seg.flags.rst then ({ a with tcpState := .reset }, [])
  else
    match a.tcpState with
    | .synSent =>
      if seg.flags.syn ∧ seg.flags.ack ∧ seg.ack = a.sndNxt then
        tcpSendAck { a with
          rcvIrs := seg.seq, rcvNxt := seg.seq + 1, sndUna := seg.ack, txBuf := []
          tcpState := .established }
      else (a, [])
    | .synRcvd =>
      if seg.flags.ack ∧ seg.ack = a.sndNxt then
        let a := { a with sndUna := seg.ack, txBuf := [], tcpState := .established }
        if 0 < seg.payload.length ∧ seg.seq = a.rcvNxt then
          let acked := (a.store seg.payload).tcpSendAck
          (acked.1, acked.2 ++ accepting)
        else (a, accepting)
      else (a, [])
    | .established | .finWait1 | .finWait2 =>
      let data := (a.onAck seg).onPayload self seg
      let fin := data.1.onFin self seg
      (fin.1, data.2 ++ fin.2)
    | .lastAck | .closing =>
      if seg.flags.ack ∧ seg.ack = a.sndNxt then ({ a with tcpState := .closed }, []) else (a, [])
    | .timeWait | .closed | .reset | .closeWait | .listen => (a, [])

/-! ### Data and the end of it -/

/-- Bytes are taken from the ring, as `antenna_tcp_try_recv` does. -/
def take (cap : Nat) : List UInt8 × (Antenna × List Effect) :=
  if a.rx.avail = 0 then ([], (a, []))
  else
    let n := min cap a.rx.avail
    let r := a.rx.takeN n
    (r.1, tcpWindowUpdateAck { a with rx := r.2 } n)

/-- One chunk is kept for retransmission and sent. -/
def stage (chunk : List UInt8) (now : Nat) : Antenna × List Effect :=
  ({ a with
    txSeq := a.sndNxt, txBuf := chunk, txDeadlineTicks := now + 50, txRetries := 0
    sndNxt := a.sndNxt + UInt32.ofNat chunk.length },
    [a.segment { ack := true, psh := true } a.sndNxt chunk])

/-- A FIN is sent. -/
def shut (next : TcpState) : Antenna × List Effect :=
  ({ a with sndNxt := a.sndNxt + 1, tcpState := next },
    [a.segment { fin := true, ack := true } a.sndNxt []])

end Antenna

/-! ## The table -/

structure Table where
  ants : Slot → Antenna := fun _ => {}
  ephemeral : Port := 49152
  /-- the sockets for which a call of `antenna_close` waits -/
  closing : List Slot := []
  /-- what has been done outside of the table -/
  out : List Effect := []

variable (t : Table)

namespace Table

def set (i : Slot) (a : Antenna) : Table := { t with ants := Function.update t.ants i a }

def emit (out : List Effect) : Table := { t with out := t.out ++ out }

/-- The socket is replaced, and something is done. -/
def put (i : Slot) (r : Antenna × List Effect) : Table := (t.set i r.1).emit r.2

/-- The first socket with the property. -/
def find (p : Antenna → Bool) : Option Slot :=
  (List.finRange kMaxAntennas).find? fun i => p (t.ants i)

/-- `valid` -/
def valid (i : Slot) : Bool := (t.ants i).proto ≠ .free

/-- `port_taken` -/
def portTaken (port : Port) : Bool :=
  (t.find fun a => a.proto = .udp ∧ a.localPort = port).isSome

/-- The counter after it has been counted up: an `uint16_t` that wraps to the first ephemeral
port. -/
def countUp (g : Port) : Port := if g + 1 = 0 then 49152 else g + 1

/-- The loop of `next_ephemeral`: the port and the counter. -/
def ephemeralFrom (taken : Port → Bool) : Nat → Port → Port × Port
  | 0, g => (0, g)
  | n + 1, g => if g = 0 ∨ taken g then ephemeralFrom taken n (countUp g) else (g, countUp g)

/-- `next_ephemeral` -/
def nextEphemeral : Port × Table :=
  let r := ephemeralFrom t.portTaken 65536 t.ephemeral
  (r.1, { t with ephemeral := r.2 })

/-! ### Sockets come and go -/

/-- The first free place. -/
def allocate : Option Slot := t.find fun a => a.proto = .free

/-- `antenna_socket_udp`, `antenna_socket_tcp` -/
def socket (proto : Proto) : Table × Option Slot :=
  match t.allocate with
  | some i => (t.set i { proto := proto, refs := 1 }, some i)
  | none => (t, none)

def socketUdp : Table × Option Slot := t.socket .udp

def socketTcp : Table × Option Slot := t.socket .tcp

/-- `antenna_inc_ref` -/
def incRef (i : Slot) : Table :=
  if t.valid i then t.set i { t.ants i with refs := (t.ants i).refs + 1 } else t

/-! ### Ports and peers -/

/-- `antenna_bind` -/
def bind (i : Slot) (port : Port) : Table × Bool :=
  if ¬ t.valid i then (t, false)
  else if port ≠ 0 then
    if t.portTaken port then (t, false) else (t.set i { t.ants i with localPort := port }, true)
  else
    let r := t.nextEphemeral
    if r.1 = 0 then (r.2, false) else (r.2.set i { t.ants i with localPort := r.1 }, true)

/-- A socket without a port gets one. -/
def implicitBind (i : Slot) : Table :=
  if (t.ants i).localPort = 0 then
    let r := t.nextEphemeral
    r.2.set i { t.ants i with localPort := r.1 }
  else t

/-- The socket when its SYN is sent. -/
def opened (ip : Ip) (port : Port) (iss : UInt32) (now : Nat) : Antenna :=
  { a with
    remoteIp := ip, remotePort := port, hasRemote := true, sndIss := iss, sndNxt :=
      iss + 1, sndUna := iss,
    rcvNxt := 0, peerFin := false, tcpState := .synSent, txDeadlineTicks := now + 100, txRetries :=
      0 }

/-- `antenna_tcp_connect` until it waits; whether it does -/
def tcpConnect (i : Slot) (ip : Ip) (port : Port) (iss : UInt32) (now : Nat) : Table × Bool :=
  if ¬ t.valid i ∨ (t.ants i).proto ≠ .tcp then (t, false)
  else if (t.ants i).tcpState ≠ .closed then (t, false)
  else
    let t := t.implicitBind i
    if (t.ants i).localPort = 0 then (t, false)
    else
      let a := opened (t.ants i) ip port iss now
      (t.put i (a, [a.segment { syn := true } iss []]), true)

/-- `antenna_connect` -/
def connect (i : Slot) (ip : Ip) (port : Port) (iss : UInt32) (now : Nat) : Table × Bool :=
  if ¬ t.valid i then (t, false)
  else if (t.ants i).proto = .tcp then t.tcpConnect i ip port iss now
  else
    let t := t.set i { t.ants i with remoteIp := ip, remotePort := port, hasRemote := true }
    (t.implicitBind i, true)

/-- `antenna_tcp_listen` -/
def tcpListen (i : Slot) (backlog : Nat) : Table × Bool :=
  if ¬ t.valid i ∨ (t.ants i).proto ≠ .tcp then (t, false)
  else if (t.ants i).tcpState ≠ .closed then (t, false)
  else if (t.ants i).localPort = 0 then (t, false)
  else
    let backlog := if backlog = 0 then 1 else backlog
    let backlog := if kAntennaAcceptCap < backlog then kAntennaAcceptCap else backlog
    (t.set i { t.ants i with tcpState := .listen, backlog := backlog }, true)

/-- `antenna_sendto` until the datagram is handed on: the answer if there is nothing to hand on -/
def sendto (i : Slot) (dst : Option Ip) (dstPort : Port) : Table × Except Int (Ip × Port) :=
  if ¬ t.valid i then (t, .error (-9))
  else
    let a := t.ants i
    let ip := dst.getD a.remoteIp
    let port := if dstPort ≠ 0 then dstPort else a.remotePort
    if ¬ a.hasRemote ∧ dst = none then (t, .error (-89))
    else if port = 0 then (t, .error (-22))
    else
      let t := t.implicitBind i
      if (t.ants i).localPort = 0 then (t, .error (-98)) else (t, .ok (ip, port))

/-! ### Arrivals -/

/-- What has become of a segment or a datagram; the source says `false` for all but the first. -/
inductive Verdict where
  | delivered
  | unmatched
  | backlogFull
  | tableFull
  | ringFull
deriving DecidableEq

/-- The socket is connected to who sends the segment. -/
def isPeer (ip : Ip) (port : Port) : Bool := a.hasRemote ∧ a.remoteIp = ip ∧ a.remotePort = port

/-- The first loop of `antenna_deliver_tcp`. -/
def connectionFor (seg : Segment) : Option Slot :=
  t.find fun a => a.proto = .tcp ∧ a.localPort = seg.dstPort ∧ isPeer a seg.srcIp seg.srcPort

/-- The second one. -/
def listenerFor (seg : Segment) : Option Slot :=
  t.find fun a => a.proto = .tcp ∧ a.localPort = seg.dstPort ∧ a.tcpState = .listen

/-- The socket of a new connection. -/
def child (seg : Segment) (iss : UInt32) : Antenna :=
  { proto := .tcp, refs := 1, localPort := seg.dstPort, remoteIp := seg.srcIp, remotePort :=
    seg.srcPort,
    hasRemote := true, sndIss := iss, sndNxt := iss + 1, sndUna := iss, rcvIrs := seg.seq,
    rcvNxt := seg.seq + 1, tcpState := .synRcvd }

/-- A SYN for the listener `l`. -/
def spawn (l : Slot) (seg : Segment) (iss : UInt32) : Table × Verdict :=
  if (t.ants l).backlog ≤ (t.ants l).acceptQueue.length then (t, .backlogFull)
  else
    match t.allocate with
    | none => (t, .tableFull)
    | some c =>
      let t := t.set c (child seg iss)
      let t := t.set l { t.ants l with acceptQueue := (t.ants l).acceptQueue ++ [c] }
      (t.emit [(child seg iss).segment { syn := true, ack := true } iss []], .delivered)

/-- The listeners that the third segment of a handshake wakes. -/
def accepting (i : Slot) : List Effect :=
  ((List.finRange kMaxAntennas).filter fun l =>
    (t.ants l).proto = .tcp ∧ (t.ants l).tcpState = .listen ∧ i ∈ (t.ants l).acceptQueue).map
      (.wake .antennaAccept)

/-- `antenna_deliver_tcp` -/
def deliverTcp (seg : Segment) (iss : UInt32) : Table × Verdict :=
  match t.connectionFor seg with
  | some i => (t.put i ((t.ants i).handle i (t.accepting i) seg), .delivered)
  | none =>
    if seg.flags.syn ∧ ¬ seg.flags.ack then
      match t.listenerFor seg with
      | some l => t.spawn l seg iss
      | none => (t, .unmatched)
    else (t, .unmatched)

/-- Eight bytes, then the payload. -/
def record (d : Datagram) : List UInt8 :=
  [d.srcIp.a, d.srcIp.b, d.srcIp.c, d.srcIp.d, UInt8.ofNat (d.srcPort.toNat / 256),
    UInt8.ofNat d.srcPort.toNat, UInt8.ofNat (d.payload.length / 256), UInt8.ofNat d.payload.length]
      ++
    d.payload

/-- The socket a datagram is for: one that is connected to the sender, or else the first without a
peer. -/
def udpFor (d : Datagram) : Option Slot :=
  (t.find fun a => a.proto = .udp ∧ a.localPort = d.dstPort ∧ isPeer a d.srcIp d.srcPort).or
    (t.find fun a => a.proto = .udp ∧ a.localPort = d.dstPort ∧ ¬ a.hasRemote)

/-- `antenna_deliver_udp` -/
def deliverUdp (d : Datagram) : Table × Verdict :=
  match t.udpFor d with
  | some i =>
    let a := t.ants i
    if kAntennaRxBytes - a.rx.avail < 8 + d.payload.length then (t, .ringFull)
    else (t.set i { a with rx := a.rx.putAll (record d) }, .delivered)
  | none => (t, .unmatched)

inductive Arrival where
  /-- `iss` is the sequence number that `rand32` gives if it is asked -/
  | tcp (seg : Segment) (iss : UInt32)
  | udp (d : Datagram)
  /-- the timer of the socket is looked at -/
  | timer (i : Slot) (now : Nat)

def arrive : Arrival → Table
  | .tcp seg iss => (t.deliverTcp seg iss).1
  | .udp d => (t.deliverUdp d).1
  | .timer i now => t.put i ((t.ants i).tcpCheckRetransmit now)

/-! ### Data -/

/-- `antenna_tcp_send` -/
def tcpSend (i : Slot) (buf : List UInt8) (now : Nat) : Table × Int :=
  let a := t.ants i
  if ¬ t.valid i ∨ a.proto ≠ .tcp then (t, -9)
  else if a.tcpState = .reset then (t, -104)
  else if a.tcpState ≠ .established ∧ a.tcpState ≠ .closeWait then (t, -107)
  else if buf.length = 0 then (t, 0)
  else
    let chunk := buf.take 1400
    (t.put i (a.stage chunk now), chunk.length)

/-- `antenna_tcp_try_recv`: the bytes, and whether the peer is gone -/
def tcpTryRecv (i : Slot) (cap : Nat) : Table × Except Int (List UInt8 × Bool) :=
  let a := t.ants i
  if ¬ t.valid i ∨ a.proto ≠ .tcp then (t, .error (-9))
  else (t.put i (a.take cap).2, .ok ((a.take cap).1, a.peerFin || a.tcpState = .reset))

/-- `antenna_recvfrom` once something has arrived: the sender and the bytes that fit -/
def recvfrom (i : Slot) (cap : Nat) : Table × Option (List UInt8 × List UInt8) :=
  let a := t.ants i
  if ¬ t.valid i ∨ a.rx.avail = 0 then (t, none)
  else
    let hdr := a.rx.takeN 8
    let plen := (hdr.1.getD 6 0).toNat * 256 + (hdr.1.getD 7 0).toNat
    let data := hdr.2.takeN plen
    (t.set i { a with rx := data.2 }, some (hdr.1.take 6, data.1.take cap))

/-! ### Accepting and closing -/

/-- The first connection in the queue that is established. -/
def acceptable (i : Slot) : Option Slot :=
  (t.ants i).acceptQueue.find? fun c => (t.ants c).tcpState = .established

/-- `antenna_tcp_try_accept`, and `antenna_tcp_accept` once it has waited -/
def tcpTryAccept (i : Slot) : Table × Option Slot :=
  if ¬ t.valid i ∨ (t.ants i).proto ≠ .tcp then (t, none)
  else if (t.ants i).tcpState ≠ .listen then (t, none)
  else
    match t.acceptable i with
    | some c => (t.set i { t.ants i with acceptQueue := (t.ants i).acceptQueue.erase c }, some c)
    | none => (t, none)

/-- `antenna_tcp_close` until it waits -/
def tcpClose (i : Slot) (next : TcpState) : Table := t.put i ((t.ants i).shut next)

/-- `ant_ref_dec` -/
def antRefDec (v : UInt16) : UInt16 := if 0 < v then v - 1 else 0

/-- `antenna_close` until it waits, if it does -/
def close (i : Slot) : Table :=
  let a := t.ants i
  let refs := antRefDec a.refs
  if ¬ t.valid i then t
  else if refs ≠ 0 then t.set i { a with refs := refs }
  else if a.proto = .tcp ∧ (a.tcpState = .established ∨ a.tcpState = .closeWait) then
    let next := if a.tcpState = .established then .finWait1 else .lastAck
    let t := t.set i { a with refs := 1 }
    { t.tcpClose i next with closing := i :: t.closing }
  else t.set i {}

/-- The rest of `antenna_close`, after the wait -/
def closeDone (i : Slot) : Table :=
  if i ∈ t.closing then { t.set i {} with closing := t.closing.erase i } else t

end Table

/-! ## One step -/

inductive Event where
  | socketUdp
  | socketTcp
  | incRef (i : Slot)
  | bind (i : Slot) (port : Port)
  | connect (i : Slot) (ip : Ip) (port : Port) (iss : UInt32) (now : Nat)
  | listen (i : Slot) (backlog : Nat)
  | sendto (i : Slot) (dst : Option Ip) (dstPort : Port)
  | recvfrom (i : Slot) (cap : Nat)
  | send (i : Slot) (buf : List UInt8) (now : Nat)
  | recv (i : Slot) (cap : Nat)
  | accept (i : Slot)
  | close (i : Slot)
  | closeDone (i : Slot)
  | arrive (x : Table.Arrival)

def Table.step : Event → Table
  | .socketUdp => t.socketUdp.1
  | .socketTcp => t.socketTcp.1
  | .incRef i => t.incRef i
  | .bind i port => (t.bind i port).1
  | .connect i ip port iss now => (t.connect i ip port iss now).1
  | .listen i backlog => (t.tcpListen i backlog).1
  | .sendto i dst dstPort => (t.sendto i dst dstPort).1
  | .recvfrom i cap => (t.recvfrom i cap).1
  | .send i buf now => (t.tcpSend i buf now).1
  | .recv i cap => (t.tcpTryRecv i cap).1
  | .accept i => (t.tcpTryAccept i).1
  | .close i => t.close i
  | .closeDone i => t.closeDone i
  | .arrive x => t.arrive x

end IndexOS.Antennas
