import Mathlib.Algebra.GroupWithZero.Nat
import Mathlib.Data.Fintype.Prod
import IndexOS.Lib.Traces

/-!
# The offsets of open files

An entry of a descriptor table has the path of a file, an offset and flags, all by value.  A call
that makes one descriptor out of another copies the entry, and `read`, `write` and `lseek` move the
offset in the entry they are given.  Beside the tables there is a ledger that knows which `openat`
each descriptor comes from and what the flag of its number should be; nothing in the source looks at
it.

What the file systems below decide is an argument of the call: whether a file could be created or
emptied, how many bytes a backend that writes in place has stored, and whether the whole file was
written again instead.

* `World.openat` … `World.execve` — the source;
* `World.Sound`, `World.Proper` — descriptors refine open file descriptions;
* `World.Careful` — the calls that keep it so.
-/

set_option autoImplicit false

namespace IndexOS.Files

def kMaxFds : Nat := 64

def kElfReadCap : Nat := 4 * 1024 * 1024

instance : NeZero kMaxFds := ⟨by decide⟩

abbrev Num := Fin kMaxFds

/-- A process and a number in its table. -/
abbrev At := Nat × Num

abbrev Path := List UInt8

inductive Kind where
  | closed
  | file
  /-- a console, for one -/
  | other
deriving DecidableEq

structure Fd where
  kind : Kind := .closed
  path : Path := []
  off : UInt64 := 0
  writable : Bool := false
  cloexec : Bool := false
deriving DecidableEq

/-- What the ledger has of a descriptor: the open file description, and the flag of the number. -/
structure Mark where
  desc : Nat := 0
  flag : Bool := false
deriving DecidableEq

structure World where
  fds : At → Fd
  files : Path → Option (List UInt8)
  alive : Nat → Bool
  marks : At → Mark
  /-- the descriptions opened with `O_APPEND` -/
  appends : Nat → Bool
  next : Nat

structure OpenFlags where
  writable : Bool := false
  create : Bool := false
  excl : Bool := false
  trunc : Bool := false
  append : Bool := false
  cloexec : Bool := false

/-- How a read was served. -/
inductive ReadBy where
  /-- `lateran_pread`, with at most so many bytes -/
  | positional (most : Nat)
  | whole
  | failed

/-- How a write was served. -/
inductive WriteBy where
  /-- `lateran_pwrite`, with so many bytes stored -/
  | positional (stored : Nat)
  /-- the whole file was read, or could not be, and written again -/
  | whole (seen : Bool)
  | failed

inductive Call where
  | openat (p : Nat) (path : Path) (flags : OpenFlags) (served : Bool)
  | read (a : At) (cap : UInt64) (by_ : ReadBy)
  | write (a : At) (buf : List UInt8) (by_ : WriteBy)
  | lseek (a : At) (off : UInt64) (whence : Nat)
  | dup (a : At)
  | dup3 (a : At) (new : Num) (cloexec : Bool)
  | dupfd (a : At) (minfd : Nat) (cloexec : Bool)
  | setfd (a : At) (cloexec : Bool)
  | fork (p c : Nat)
  | execve (p : Nat) (loaded : Bool)
  | close (a : At)

/-- The process that makes the call. -/
def Call.pid : Call → Nat
  | .openat p .. | .fork p _ | .execve p _ => p
  | .read a .. | .write a .. | .lseek a .. | .dup a | .dup3 a .. | .dupfd a .. | .setfd a _ | .close
    a => a.1

/-- The bytes in the place of those from `off` on; a gap is filled with zeros. -/
def splice (l : List UInt8) (off : Nat) (bytes : List UInt8) : List UInt8 :=
  (l ++ List.replicate (off - l.length) 0).take off ++ bytes ++ l.drop (off + bytes.length)

namespace World

variable (w : World)

def isOpen (a : At) : Bool := (w.fds a).kind ≠ .closed

/-- The lowest number from `lo` on that is free. -/
def freeNum (p lo : Nat) : Option Num :=
  (List.finRange kMaxFds).find? fun i => lo ≤ i.val ∧ (w.fds (p, i)).kind = .closed

def contents (path : Path) : List UInt8 := (w.files path).getD []

/-- The contents of the file of a descriptor. -/
def file (a : At) : List UInt8 := w.contents (w.fds a).path

def put (a : At) (fd : Fd) (mark : Mark) : World :=
  { w with fds := Function.update w.fds a fd, marks := Function.update w.marks a mark }

/-! ## Opening -/

/-- `linux_file_open_ex` until the file is there; `served` says whether it could be created or
emptied. -/
def prepare (path : Path) (flags : OpenFlags) (served : Bool) : Option (List UInt8) :=
  match w.files path with
  | none => if flags.create ∧ served then some [] else none
  | some l =>
    if flags.create ∧ flags.excl then none
    else some (if flags.trunc ∧ flags.writable ∧ served then [] else l)

/-- `openat`; with `O_APPEND` the offset is put at the end, and `O_CLOEXEC` is not looked at -/
def openat (p : Nat) (path : Path) (flags : OpenFlags) (served : Bool) : World :=
  match w.prepare path flags served with
  | none => w
  | some l =>
    let w := { w with files := Function.update w.files path (some l) }
    match w.freeNum p 3 with
    | none => w
    | some i =>
      { w.put (p, i) { kind := .file, path, off := if flags.append then .ofNat l.length else 0,
                       writable := flags.writable } { desc := w.next, flag := flags.cloexec } with
        appends := Function.update w.appends w.next flags.append, next := w.next + 1 }

/-! ## Moving the offset -/

/-- How many bytes `read_file_fd` reads. -/
def readCount (a : At) (cap : UInt64) : ReadBy → Nat
  | .positional most => min most
    (min (min cap.toNat (2 ^ 32 - 1)) ((w.file a).length - (w.fds a).off.toNat))
  | .whole => min cap.toNat ((w.file a).length - (w.fds a).off.toNat)
  | .failed => 0

/-- The file as `linux_file_write` leaves it, and the bytes that it has stored. -/
def written (a : At) (buf : List UInt8) : WriteBy → Option (List UInt8 × List UInt8)
  | .positional stored =>
    let bytes := (buf.take (2 ^ 32 - 1)).take stored
    some (if bytes = [] then w.file a else splice (w.file a) (w.fds a).off.toNat bytes, bytes)
  | .whole seen =>
    if kElfReadCap < (w.fds a).off.toNat then none
    else
      let bytes := (buf.take (2 ^ 32 - 1)).take (kElfReadCap - (w.fds a).off.toNat)
      some (splice (if seen then (w.file a).take kElfReadCap else []) (w.fds a).off.toNat bytes,
        bytes)
  | .failed => none

def writes (a : At) : Prop := (w.fds a).kind = .file ∧ (w.fds a).writable = true

instance (a : At) : Decidable (w.writes a) := inferInstanceAs (Decidable (_ ∧ _))

/-- Where `lseek` goes. -/
def target (a : At) (off : UInt64) (whence : Nat) : UInt64 :=
  (if whence = 1 then (w.fds a).off else if whence = 2 then .ofNat (w.file a).length else 0) + off

/-- The descriptor whose offset the call sets, and the offset. -/
def moves : Call → Option (At × UInt64)
  | .read a cap by_ =>
    if (w.fds a).kind = .file then some (a, (w.fds a).off + .ofNat (w.readCount a cap by_))
      else none
  | .write a buf by_ =>
    if w.writes a then
      (w.written a buf by_).map fun r => (a, (w.fds a).off + .ofNat r.2.length)
    else none
  | .lseek a off whence => if (w.fds a).kind = .file then some (a, w.target a off whence) else none
  | _ => none

/-- The file that the call writes. -/
def stores : Call → Option (Path × List UInt8)
  | .write a buf by_ =>
    if w.writes a then
      (w.written a buf by_).map fun r => ((w.fds a).path, r.1)
    else none
  | _ => none

/-- `read`, `write` and `lseek` -/
def move (e : Call) : World :=
  { w with
    fds := match w.moves e with
      | none => w.fds
      | some (a, off) => Function.update w.fds a { w.fds a with off }
    files := match w.stores e with
      | none => w.files
      | some (path, l) => Function.update w.files path (some l) }

/-! ## Copying and closing -/

/-- `linux_dup_fd` -/
def dup (a : At) : World :=
  match w.freeNum a.1 0 with
  | some i => if w.isOpen a then w.put (a.1, i) (w.fds a) { w.marks a with flag := false } else w
  | none => w

/-- `linux_dup3_fd`; the flags are not looked at -/
def dup3 (a : At) (new : Num) (cloexec : Bool) : World :=
  if w.isOpen a ∧ a.2 ≠ new then w.put (a.1, new) (w.fds a) { w.marks a with flag :=
    cloexec } else w

/-- `fcntl` with `F_DUPFD` and `F_DUPFD_CLOEXEC` -/
def dupfd (a : At) (minfd : Nat) (cloexec : Bool) : World :=
  match w.freeNum a.1 minfd with
  | some i =>
    if w.isOpen a then w.put (a.1, i) { w.fds a with cloexec } { w.marks a with flag :=
      cloexec } else w
  | none => w

/-- `fcntl` with `F_SETFD` -/
def setfd (a : At) (cloexec : Bool) : World :=
  if w.isOpen a then w.put a { w.fds a with cloexec } { w.marks a with flag := cloexec } else w

/-- `linux_clone`, as far as the descriptors go; `c` is a new process -/
def fork (p c : Nat) : World :=
  if w.alive c then w
  else
    { w with
      fds := fun a => if a.1 = c then w.fds (p, a.2) else w.fds a
      marks := fun a => if a.1 = c then w.marks (p, a.2) else w.marks a
      alive := Function.update w.alive c true }

/-- `linux_execve_replace`, once the program has been loaded -/
def execve (p : Nat) : World :=
  { w with fds := fun a => if a.1 = p ∧ w.isOpen a ∧ (w.fds a).cloexec then {} else w.fds a }

/-- `linux_fd_close` of a file; a console with a number below 3 stays -/
def close (a : At) : World :=
  if (w.fds a).kind = .other ∧ a.2.val < 3 then w else w.put a {} {}

/-- What a call does. -/
def call : Call → World
  | .openat p path flags served => w.openat p path flags served
  | .read a cap by_ => w.move (.read a cap by_)
  | .write a buf by_ => w.move (.write a buf by_)
  | .lseek a off whence => w.move (.lseek a off whence)
  | .dup a => w.dup a
  | .dup3 a new cloexec => w.dup3 a new cloexec
  | .dupfd a minfd cloexec => w.dupfd a minfd cloexec
  | .setfd a cloexec => w.setfd a cloexec
  | .fork p c => w.fork p c
  | .execve p loaded => if loaded then w.execve p else w
  | .close a => w.close a

def step (w : World) (e : Call) : World := if w.alive e.pid then w.call e else w

/-- The first process, with three descriptors for the console. -/
def start (files : Path → Option (List UInt8)) : World where
  fds := fun a => if a.1 = 0 ∧ a.2.val < 3 then { kind := .other } else {}
  files := files
  alive := fun p => p = 0
  marks := fun a => { desc := a.2.val }
  appends := fun _ => false
  next := 3

/-! ## Open file descriptions -/

/-- What holds in every state. -/
structure Sound (w : World) : Prop where
  /-- the descriptors of one description have one offset -/
  shared : ∀ a b, w.isOpen a = true → w.isOpen b = true → (w.marks a).desc = (w.marks b).desc →
    (w.fds a).off = (w.fds b).off
  flags : ∀ a, w.isOpen a = true → (w.fds a).cloexec = (w.marks a).flag

/-- What holds of every call. -/
def Proper (w : World) (e : Call) : Prop :=
  w.alive e.pid = true →
    -- no call on one description moves the offset of another
    (∀ a pos, w.moves e = some (a, pos) → ∀ b, (w.marks b).desc ≠ (w.marks a).desc →
      ((w.step e).fds b).off = (w.fds b).off) ∧
    match e with
    | .write a buf by_ =>
      -- what is appended comes after the file as it was
      w.appends (w.marks a).desc = true → w.writes a → ∀ l bytes, w.written a buf by_ = some
        (l, bytes) → bytes ≠ [] → ((w.step e).file a).drop (w.file a).length = bytes
    | .execve p true => ∀ i, w.isOpen (p, i) = true →
      (w.step e).fds (p, i) = if (w.marks (p, i)).flag then {} else w.fds (p, i)
    | _ => True

/-- No other descriptor is of the same description. -/
def Sole (w : World) (a : At) : Prop :=
  ∀ b, w.isOpen b = true → (w.marks b).desc = (w.marks a).desc → b = a

/-- Who moves an offset has the only descriptor. -/
def Alone (w : World) (e : Call) : Prop :=
    ∀ a pos, w.moves e = some (a, pos) → pos ≠ (w.fds a).off → w.Sole a

/-- The calls that keep descriptors to their descriptions. -/
def Careful (w : World) (e : Call) : Prop :=
  w.alive e.pid = true →
    match e with
    | .openat p path flags served =>
      (w.prepare path flags served).isSome → (w.freeNum p 3).isSome → flags.cloexec = false
    | .read .. | .lseek .. => w.Alone e
    | .write a buf by_ => w.Alone e ∧ (w.appends (w.marks a).desc = true → w.writes a →
      ∀ l bytes, w.written a buf by_ = some (l, bytes) → bytes ≠ [] → (w.fds a).off.toNat =
        (w.file a).length)
    | .dup a => w.isOpen a = true → (w.freeNum a.1 0).isSome → (w.fds a).cloexec = false
    | .dup3 a new cloexec => w.isOpen a = true → a.2 ≠ new → (w.fds a).cloexec = cloexec
    | _ => True

end World
end IndexOS.Files
