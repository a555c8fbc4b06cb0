import IndexOS.Antenna.Receive
import IndexOS.Lib.Traces
import Mathlib.Data.Fintype.Card

/-!
# The queue of a listener

A SYN makes a child of the listener, which waits in the listener's queue until it is accepted.  Only
an established child is ever accepted, so one that is reset, that never completes its handshake or
that has had the FIN of its peer waits for ever and keeps its place; and a listener that is closed
forgets its queue.

Sockets belong to processes through descriptors; a call can only name a socket that the caller has
one for, and a peer that is gone sends nothing more.

* `World`, `Happening`, `World.step` — the table with what can be seen from outside: how many
  descriptors each socket has, and what has become of each child that has not been accepted;
* `World.Sound`, `World.ReturnsNew` — the property;
* `World.Patient` — no queued child is reset, finished or abandoned, and no listener is closed with
  a queue.
-/

set_option autoImplicit false

namespace IndexOS.Antennas

/-- The descriptors of all processes, `kMaxEspers * kMaxFds`. -/
def kMaxDescriptors : Nat := 64 * 64

/-- A child that has not been accepted. -/
structure Child where
  listener : Slot
  /-- the third segment of the handshake has come -/
  completed : Bool := false
  reset : Bool := false
  /-- how often the listener has been asked successfully since then -/
  since : Nat := 0
deriving DecidableEq

/-- The child after a segment for it. -/
def Child.hear (k : Child) (a : Antenna) (seg : Segment) : Child :=
  if seg.flags.rst then { k with reset := true }
  else if a.tcpState = .synRcvd ∧ seg.flags.ack ∧ seg.ack = a.sndNxt then { k with completed :=
    true }
  else k

structure Ledger where
  owned : Slot → Nat := fun _ => 0
  child : Slot → Option Child := fun _ => none
  gone : List (Ip × Port) := []

structure World where
  table : Table := {}
  ledger : Ledger := {}

inductive Happening where
  | event (e : Event)
  /-- the peer sends nothing more -/
  | gone (ip : Ip) (port : Port)

/-- The socket that a call names. -/
def Event.subject : Event → Option Slot
  | .incRef i | .bind i _ | .connect i _ _ _ _ | .listen i _ | .sendto i _ _ | .recvfrom i _
    | .send i _ _
  | .recv i _ | .accept i | .close i => some i
  | .socketUdp | .socketTcp | .closeDone _ | .arrive _ => none

variable (l : Ledger)

namespace Ledger

def acquire : Option Slot → Ledger
  | some i => { l with owned := Function.update l.owned i 1 }
  | none => l

/-- The socket is free again; its children are nobody's. -/
def release (i : Slot) : Ledger :=
  { l with
    owned := Function.update l.owned i 0
    child := fun c => (l.child c).filter fun k => k.listener ≠ i }

/-- The listener `i` has given `c` away. -/
def accepted (i c : Slot) : Ledger :=
  { l with
    owned := Function.update l.owned c 1
    child := Function.update (fun c => (l.child c).map fun k =>
      if k.listener = i ∧ k.completed then { k with since := k.since + 1 } else k) c none }

/-- A segment has arrived. -/
def heard (before : Table) (seg : Segment) (after : Table) : Ledger :=
  { l with
    child := fun c =>
      if (before.ants c).proto = .free ∧ (after.ants c).proto ≠ .free then
        (before.listenerFor seg).map fun i => { listener := i }
      else if before.connectionFor seg = some c then (l.child c).map fun k => k.hear
        (before.ants c) seg
      else l.child c }

def note (before : Table) (e : Event) (after : Table) : Ledger :=
  match e with
  | .socketUdp => l.acquire before.socketUdp.2
  | .socketTcp => l.acquire before.socketTcp.2
  | .incRef i => { l with owned := Function.update l.owned i (l.owned i + 1) }
  | .accept i =>
    match (before.tcpTryAccept i).2 with
    | some c => l.accepted i c
    | none => l
  | .close i =>
    if i ∈ after.closing then l
    else if (after.ants i).proto = .free then l.release i
    else { l with owned := Function.update l.owned i (l.owned i - 1) }
  | .closeDone i => if i ∈ before.closing then l.release i else l
  | .arrive (.tcp seg _) => l.heard before seg after
  | _ => l

end Ledger

variable (w : World)

namespace World

/-- The listener's queue. -/
def queue (l : Slot) : List Slot := (w.table.ants l).acceptQueue

/-- The socket has a descriptor that is not being closed. -/
def holds (i : Slot) : Bool := 0 < w.ledger.owned i ∧ i ∉ w.table.closing

/-- A call names a socket with a descriptor, and what arrives is from somebody who is not gone. -/
def may : Event → Bool
  | .incRef i => w.holds i ∧ w.ledger.owned i < kMaxDescriptors
  | .arrive (.tcp seg _) => (seg.srcIp, seg.srcPort) ∉ w.ledger.gone
  | e => e.subject.all w.holds

def step : Happening → World
  | .event e =>
    if w.may e then ⟨w.table.step e, w.ledger.note w.table e (w.table.step e)⟩ else w
  | .gone ip port => { w with ledger := { w.ledger with gone := (ip, port) :: w.ledger.gone } }

/-! ## The property -/

/-- The table after the listener has been asked `n` times. -/
def acceptTimes (l : Slot) : Nat → Table → Table
  | 0, t => t
  | n + 1, t => acceptTimes l n (t.tcpTryAccept l).1

/-- Sooner or later the child can leave the queue, without the listener being closed. -/
def Releasable (l c : Slot) : Prop :=
  ∃ es, (∀ e ∈ es, e ≠ .event (.close l)) ∧ c ∉ (Traces.run step w es).queue l

/-- The child has been reset, or its peer is gone before the handshake was complete. -/
def Dead (c : Slot) (k : Child) : Prop :=
  k.reset = true ∨ (k.completed = false ∧
    ((w.table.ants c).remoteIp, (w.table.ants c).remotePort) ∈ w.ledger.gone)

/-- What a queue promises. -/
structure Sound (w : World) : Prop where
  /-- who is queued is a child of that listener, not accepted yet -/
  queued : ∀ l, ∀ c ∈ w.queue l, (w.table.ants c).proto = .tcp ∧
    ∃ k, w.ledger.child c = some k ∧ k.listener = l
  nodup : ∀ l, (w.queue l).Nodup
  /-- a complete connection is among the next ones accepted, not more than the backlog since it is
  complete -/
  served : ∀ c k, w.ledger.child c = some k → k.completed = true → k.reset = false →
    ∃ n, k.since + n < (w.table.ants k.listener).backlog ∧
      (acceptTimes k.listener n w.table).acceptable k.listener = some c
  released : ∀ l, ∀ c ∈ w.queue l, ∀ k, w.ledger.child c = some k → w.Dead c k → w.Releasable l c
  counted : (Finset.univ.filter fun i => (w.table.ants i).proto ≠ .free).card =
    (Finset.univ.filter fun i => 0 < w.ledger.owned i).card +
      (Finset.univ.filter fun c => ∃ l, c ∈ w.queue l).card

/-- Who is accepted has not been before. -/
def ReturnsNew : Happening → Prop
  | .event (.accept i) => w.may (.accept i) → ∀ c, (w.table.tcpTryAccept i).2 = some c →
    w.ledger.owned c = 0 ∧ ∃ k, w.ledger.child c = some k ∧ k.listener = i
  | _ => True

/-- No child in a queue is reset, finished by its peer or abandoned, and no listener is closed while
it has a queue. -/
def Patient : Happening → Prop
  | .event (.arrive (.tcp seg iss)) => w.may (.arrive (.tcp seg iss)) →
    ∀ l, ∀ c ∈ w.queue l, w.table.connectionFor seg = some c →
      seg.flags.rst = false ∧
        ((w.table.ants c).tcpState = .established → ¬ (w.table.ants c).TakesFin seg)
  | .event (.close l) => w.may (.close l) → (w.table.ants l).refs = 1 → w.queue l = []
  | .gone ip port => ∀ l, ∀ c ∈ w.queue l, (w.table.ants c).tcpState = .synRcvd →
    Table.isPeer (w.table.ants c) ip port = false
  | _ => True

end World

end IndexOS.Antennas
