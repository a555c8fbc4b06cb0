import IndexOS.Lib.RingBuffer
import IndexOS.Lib.Traces

/-!
# Pipes and the calls on them

A pipe is a ring of bytes with a count of the descriptors for either end.  A call that can neither
move a byte nor fail parks the process, with the program counter on the instruction of the call, so
that the whole call is executed again when the process is woken: `readv` and `writev` then start
with their first part again, whatever they have already moved.  There is one more way to wait.  Who
has found no room for a short write looks whether the pipe is writable before parking; if there is
some room, but not enough, it is, and the loop of `linux_pipe_write` goes round.

* `Aiwass`, `Aiwass.read`, `Aiwass.write` — the pipe;
* `Aiwass.linuxPipeRead`, `Aiwass.linuxPipeWrite` — with parking;
* `Call`, `Aiwass.exec` — `read`, `readv`, `write` and `writev`, from the beginning or from where
  the loop goes round;
* `World`, `Event`, `World.step` — the processes with descriptors for one pipe, and what their
  completed calls have reported;
* `World.Sound`, `World.Answers` — a pipe is a stream of bytes;
* `World.Smooth` — no vectored call stops after it has moved bytes, and none says 0 for want of
  data.
-/

set_option autoImplicit false

namespace IndexOS.Pipes

def kAiwassBufSize : Nat := 65536

def kAiwassPipeBuf : Nat := 4096

def kMaxEspers : Nat := 64

/-- `UIO_MAXIOV` -/
def kMaxIov : Nat := 1024

instance : NeZero kMaxEspers := ⟨by decide⟩

abbrev Pid := Fin kMaxEspers

/-! ## The pipe -/

structure Aiwass where
  inUse : Bool := false
  ring : RingBuffer UInt8 kAiwassBufSize
  readRefs : Nat := 0
  writeRefs : Nat := 0

/-- What `aiwass_read` and `aiwass_write` say. -/
inductive Moved (α : Type) where
  | wouldBlock
  | brokenPipe
  | moved (x : α)

/-- What `linux_pipe_read` and `linux_pipe_write` come to. -/
inductive Reply (α : Type) where
  | fails (errno : Int)
  | parked
  /-- the loop goes round -/
  | again
  | gives (x : α)

variable (p : Aiwass)

namespace Aiwass

def room : Nat := kAiwassBufSize - p.ring.avail

/-- `aiwass_read`; the address is not null here -/
def read (len : Nat) : Aiwass × Moved (List UInt8) :=
  if ¬ p.inUse then (p, .brokenPipe)
  else if p.ring.avail = 0 then (p, if 0 < p.writeRefs then .wouldBlock else .moved [])
  else
    let r := p.ring.takeN (min len p.ring.avail)
    ({ p with ring := r.2 }, .moved r.1)

/-- `aiwass_write`; the address may be null -/
def write : Option (List UInt8) → Aiwass × Moved Nat
  | none => (p, .brokenPipe)
  | some src =>
    if ¬ p.inUse then (p, .brokenPipe)
    else if p.readRefs = 0 then (p, .brokenPipe)
    else if p.ring.avail = kAiwassBufSize then (p, .wouldBlock)
    else if src.length ≤ kAiwassPipeBuf ∧ p.room < src.length then (p, .wouldBlock)
    else
      let n := min src.length p.room
      ({ p with ring := p.ring.putAll (src.take n) }, .moved n)

/-- `aiwass_readable` -/
def readable : Bool := ¬ p.inUse ∨ 0 < p.ring.avail ∨ p.writeRefs = 0

/-- `aiwass_writable` -/
def writable : Bool := ¬ p.inUse ∨ p.ring.avail < kAiwassBufSize ∨ p.readRefs = 0

/-- `maybe_free` -/
def maybeFree : Aiwass :=
  if p.readRefs ≠ 0 ∨ p.writeRefs ≠ 0 then p else { ring := { buf := p.ring.buf } }

/-- `aiwass_inc_read`, `n` times -/
def incRead (n : Nat) : Aiwass := if p.inUse then { p with readRefs := p.readRefs + n } else p

/-- `aiwass_inc_write`, `n` times -/
def incWrite (n : Nat) : Aiwass := if p.inUse then { p with writeRefs := p.writeRefs + n } else p

/-- `aiwass_close_read` -/
def closeRead : Aiwass :=
  if p.inUse then maybeFree { p with readRefs := p.readRefs - 1 } else p

/-- `aiwass_close_write` -/
def closeWrite : Aiwass :=
  if p.inUse then maybeFree { p with writeRefs := p.writeRefs - 1 } else p

/-- `linux_pipe_write` until it returns, parks or goes round; `park_on_pipe` looks at the pipe once
more -/
def linuxPipeWrite (nonblock : Bool) (src : Option (List UInt8)) : Aiwass × Reply Nat :=
  let r := p.write src
  match r.2 with
  | .brokenPipe => (r.1, .fails (-32))
  | .wouldBlock =>
    (r.1, if nonblock then .fails (-11) else if r.1.writable then .again else .parked)
  | .moved n => (r.1, .gives n)

/-- `linux_pipe_read` -/
def linuxPipeRead (nonblock : Bool) (len : Nat) : Aiwass × Reply (List UInt8) :=
  let r := p.read len
  match r.2 with
  | .brokenPipe => (r.1, .gives [])
  | .wouldBlock =>
    (r.1, if nonblock then .fails (-11) else if r.1.readable then .again else .parked)
  | .moved bytes => (r.1, .gives bytes)

end Aiwass

/-! ## The calls -/

/-- Memory to write from, and whether `ensure_user` finds it. -/
structure Piece where
  mapped : Bool := true
  data : List UInt8

/-- Memory to read into. -/
structure Space where
  mapped : Bool := true
  len : Nat

inductive Call where
  /-- the address may be null -/
  | write (src : Option Piece)
  | read (dst : Space)
  /-- `table` says whether the array of parts is mapped -/
  | writev (table : Bool) (iov : List Piece)
  | readv (table : Bool) (iov : List Space)

/-- Where a call goes on. -/
inductive Point where
  | start
  /-- in the loop of `linux_pipe_write`, with these parts to go -/
  | pieces (rest : List Piece) (total : Nat)
  | spaces (rest : List Space) (got : List UInt8)

/-- How far a call has come.  The bytes are those that have been read. -/
inductive Stop where
  | done (answer : Int) (got : List UInt8)
  | parked
  | again (point : Point)

namespace Aiwass

/-- The loop of `writev`. -/
def writevFrom (nonblock : Bool) : List Piece → Nat → Aiwass → Aiwass × Stop
  | [], total, p => (p, .done total [])
  | v :: rest, total, p =>
    if v.data.length = 0 then writevFrom nonblock rest total p
    else if ¬ v.mapped then (p, .done (-14) [])
    else
      let r := p.linuxPipeWrite nonblock (some v.data)
      match r.2 with
      | .parked => (r.1, .parked)
      | .again => (r.1, .again (.pieces (v :: rest) total))
      | .fails errno => (r.1, .done (if 0 < total then total else errno) [])
      | .gives n => writevFrom nonblock rest (total + n) r.1

/-- The loop of `readv`. -/
def readvFrom (nonblock : Bool) : List Space → List UInt8 → Aiwass → Aiwass × Stop
  | [], got, p => (p, .done got.length got)
  | v :: rest, got, p =>
    if v.len = 0 then readvFrom nonblock rest got p
    else if ¬ v.mapped then (p, .done (-14) got)
    else
      let r := p.linuxPipeRead nonblock v.len
      match r.2 with
      | .parked => (r.1, .parked)
      | .again => (r.1, .again (.spaces (v :: rest) got))
      | .fails _ => (r.1, .done got.length got)
      | .gives bytes =>
        -- nothing more, or a short read
        if bytes.length < v.len then (r.1, .done (got ++ bytes).length (got ++ bytes))
        else readvFrom nonblock rest (got ++ bytes) r.1

/-- The call from its beginning. -/
def start (nonblock : Bool) : Call → Aiwass × Stop
  | .write src =>
    if src.any fun v => ¬ v.mapped then (p, .done (-14) [])
    else
      let r := p.linuxPipeWrite nonblock (src.map Piece.data)
      match r.2 with
      | .parked => (r.1, .parked)
      | .again => (r.1, .again .start)
      | .fails errno => (r.1, .done errno [])
      | .gives n => (r.1, .done n [])
  | .read dst =>
    if ¬ dst.mapped then (p, .done (-14) [])
    else
      let r := p.linuxPipeRead nonblock dst.len
      match r.2 with
      | .parked => (r.1, .parked)
      | .again => (r.1, .again .start)
      | .fails errno => (r.1, .done errno [])
      | .gives bytes => (r.1, .done bytes.length bytes)
  | .writev table iov =>
    if kMaxIov < iov.length then (p, .done (-22) [])
    else if ¬ table then (p, .done (-14) [])
    else writevFrom nonblock iov 0 p
  | .readv table iov =>
    if kMaxIov < iov.length then (p, .done (-22) [])
    else if ¬ table then (p, .done (-14) [])
    else readvFrom nonblock iov [] p

def exec (nonblock : Bool) (c : Call) : Point → Aiwass × Stop
  | .start => p.start nonblock c
  | .pieces rest total => writevFrom nonblock rest total p
  | .spaces rest got => readvFrom nonblock rest got p

end Aiwass

/-! ## The processes -/

inductive End where
  | read
  | write
deriving DecidableEq

/-- The end that the call is for. -/
def Call.side : Call → End
  | .write _ | .writev .. => .write
  | .read _ | .readv .. => .read

structure Pending where
  call : Call
  nonblock : Bool
  point : Point := .start

/-- A process: how many descriptors it has for each end, and the call it is in. -/
structure Proc where
  reads : Nat := 0
  writes : Nat := 0
  pending : Option Pending := none

def Proc.has (p : Proc) : End → Bool
  | .read => 0 < p.reads
  | .write => 0 < p.writes

structure World where
  pipe : Aiwass
  procs : Pid → Proc
  /-- what completed writes have reported -/
  sent : List UInt8 := []
  /-- what completed reads have delivered -/
  delivered : List UInt8 := []

inductive Event where
  | call (i : Pid) (nonblock : Bool) (c : Call)
  /-- the process has been woken, or the loop goes round -/
  | resume (i : Pid)
  | dup (i : Pid) (side : End)
  | fork (i j : Pid)
  | close (i : Pid) (side : End)

/-- The bytes of a write, one after the other. -/
def payload (iov : List Piece) : List UInt8 := (iov.map Piece.data).flatten

def Call.payload : Call → List UInt8
  | .write src => Pipes.payload src.toList
  | .writev _ iov => Pipes.payload iov
  | .read _ | .readv .. => []

/-- How many bytes there is space for. -/
def space (iov : List Space) : Nat := (iov.map Space.len).sum

/-- How many bytes a read asks for. -/
def Call.wanted : Call → Nat
  | .read dst => dst.len
  | .readv _ iov => space iov
  | .write _ | .writev .. => 0

/-- The bytes that the call has reported as written. -/
def Call.reported (c : Call) : Stop → List UInt8
  | .done answer _ => c.payload.take answer.toNat
  | _ => []

/-- The bytes that the call has delivered. -/
def Stop.received : Stop → List UInt8
  | .done answer got => if 0 ≤ answer then got else []
  | _ => []

/-- What is left of the call. -/
def Pending.next (pd : Pending) : Stop → Option Pending
  | .done .. => none
  | .parked => some { pd with point := .start }
  | .again point => some { pd with point }

variable (w : World)

namespace World

/-- `aiwass_create`, in the process 0; the memory is what it was before. -/
def create (buf : Nat → UInt8) : World where
  pipe := { inUse := true, ring := { buf }, readRefs := 1, writeRefs := 1 }
  procs := fun i => if i = 0 then { reads := 1, writes := 1 } else {}

def idle (i : Pid) : Bool := (w.procs i).pending.isNone

/-- The process `i` is not in a call and has a descriptor. -/
def holds (i : Pid) (side : End) : Bool := w.idle i ∧ (w.procs i).has side

def setProc (i : Pid) (p : Proc) : World := { w with procs := Function.update w.procs i p }

/-- The process executes its call. -/
def exec (i : Pid) (pd : Pending) : World :=
  let r := w.pipe.exec pd.nonblock pd.call pd.point
  { pipe := r.1
    procs := Function.update w.procs i { w.procs i with pending := pd.next r.2 }
    sent := w.sent ++ pd.call.reported r.2
    delivered := w.delivered ++ r.2.received }

/-- One more descriptor. -/
def dup (i : Pid) : End → World
  | .read => { w.setProc i { w.procs i with reads :=
    (w.procs i).reads + 1 } with pipe := w.pipe.incRead 1 }
  | .write => { w.setProc i { w.procs i with writes :=
    (w.procs i).writes + 1 } with pipe := w.pipe.incWrite 1 }

def close (i : Pid) : End → World
  | .read => { w.setProc i { w.procs i with reads := (w.procs i).reads - 1 } with pipe :=
    w.pipe.closeRead }
  | .write => { w.setProc i { w.procs i with writes := (w.procs i).writes - 1 } with pipe :=
    w.pipe.closeWrite }

/-- The new process `j` has every descriptor that `i` has. -/
def fork (i j : Pid) : World :=
  { w.setProc j { w.procs j with reads := (w.procs i).reads, writes := (w.procs i).writes } with
    pipe := (w.pipe.incRead (w.procs i).reads).incWrite (w.procs i).writes }

/-- The process `j` can be made. -/
def absent (j : Pid) : Bool := w.idle j ∧ (w.procs j).reads = 0 ∧ (w.procs j).writes = 0

def step : Event → World
  | .call i nonblock c => if w.holds i c.side then w.exec i { call := c, nonblock } else w
  | .resume i =>
    match (w.procs i).pending with
    | some pd => w.exec i pd
    | none => w
  | .dup i side => if w.holds i side then w.dup i side else w
  | .fork i j => if w.idle i ∧ w.absent j then w.fork i j else w
  | .close i side => if w.holds i side then w.close i side else w

/-! ## The property -/

/-- What has been delivered is the beginning of what has been reported, and the rest is in the pipe
as long as there is one. -/
structure Sound (w : World) : Prop where
  delivered : w.delivered <+: w.sent
  rest : w.pipe.inUse = true → w.sent = w.delivered ++ w.pipe.ring.contents

/-- The call that completes in this step, and its answer. -/
def answer : Event → Option (Call × Int)
  | .call i nonblock c =>
    if w.holds i c.side then
      match (w.pipe.exec nonblock c .start).2 with
      | .done answer _ => some (c, answer)
      | _ => none
    else none
  | .resume i =>
    match (w.procs i).pending with
    | some pd =>
      match (w.pipe.exec pd.nonblock pd.call pd.point).2 with
      | .done answer _ => some (pd.call, answer)
      | _ => none
    | none => none
  | _ => none

/-- The answer 0 to a read means that everything has been delivered and nobody can write any more; a
short write is done as a whole or not at all. -/
def Answers (e : Event) : Prop :=
  ∀ c answer, w.answer e = some (c, answer) →
    (c.wanted ≠ 0 → answer = 0 → w.delivered = w.sent ∧ ∀ i, (w.procs i).writes = 0) ∧
    (∀ v, c = .write (some v) → v.data.length ≤ kAiwassPipeBuf → 0 ≤ answer →
      answer = v.data.length)

end World

/-! ## The condition -/

/-- Some of `len` bytes can be stored at once: all of them if they are few. -/
def Takes (room len : Nat) : Prop := 0 < room ∧ (len ≤ kAiwassPipeBuf → len ≤ room)

/-- The loop of `writev` gets past these parts. -/
def Passes : Nat → List Piece → Prop
  | _, [] => True
  | room, v :: rest =>
    (v.data ≠ [] → v.mapped = true ∧ Takes room v.data.length) ∧ Passes (room - v.data.length) rest

/-- Whatever part comes after bytes have been stored is mapped and can be stored at once, or the
descriptor does not block. -/
def Flows (nonblock : Bool) (room : Nat) (begun : Prop) (iov : List Piece) : Prop :=
  ∀ before v after, iov = before ++ v :: after → v.data ≠ [] → (begun ∨ payload before ≠ []) →
    Passes room before → v.mapped = true ∧
      (nonblock = true ∨ Takes (room - (payload before).length) v.data.length)

/-- Whatever part comes after bytes have been read is mapped; and where the bytes come to an end,
while there are writers, the descriptor does not block if there have been any, and blocks if there
have been none. -/
def Fills (nonblock : Bool) (avail writers begun : Nat) (iov : List Space) : Prop :=
  ∀ before v after, iov = before ++ v :: after → v.len ≠ 0 →
    (∀ u ∈ before, u.len ≠ 0 → u.mapped = true) → space before ≤ avail →
    (0 < begun + space before → v.mapped = true) ∧
      (v.mapped = true → avail = space before → 0 < writers →
        (nonblock = true ↔ 0 < begun + space before))

/-- The call goes on without stopping in the middle. -/
def Pending.Smooth (pd : Pending) : Prop :=
  match pd.point, pd.call with
  | .start, .writev table iov => table = true → iov.length ≤ kMaxIov → 0 < p.readRefs →
    Flows pd.nonblock p.room False iov
  | .start, .readv table iov => table = true → iov.length ≤ kMaxIov →
    Fills pd.nonblock p.ring.avail p.writeRefs 0 iov
  | .start, _ => True
  | .pieces rest total, _ => 0 < p.readRefs → Flows pd.nonblock p.room (0 < total) rest
  | .spaces rest got, _ => Fills pd.nonblock p.ring.avail p.writeRefs got.length rest

def World.Smooth : Event → Prop
  | .call i nonblock c => w.holds i c.side = true → Pending.Smooth w.pipe { call := c, nonblock }
  | .resume i => ∀ pd, (w.procs i).pending = some pd → pd.Smooth w.pipe
  | _ => True

end IndexOS.Pipes
