import IndexOS.Testament.Tmpfs
import Mathlib.Data.List.Infix

/-!
# Lateran, the dispatch to the filesystems

Every file operation of the kernel enters through one of the `lateran_*` functions of
`src/index/lateran.cpp`, and each of them decides on its own which filesystem to hand the path to:
a tmpfs mount, the 9p host share below `/host`, the synthetic `/proc`, or the filesystem on disk.
This file models the decisions, one definition for each entry point, and compares them with the
decision of `lateran_stat`.

* `FsOp` — the operations, with their arguments;
* `route` — the order in which most entry points try the filesystems, with the arms an entry
  point may lack as parameters; `lateranPwrite` and `lateranRename` go their own ways;
* `Coherent` — the operation is carried out by the filesystem `lateran_stat` selects for its
  path, or it fails and changes nothing;
* `Routed` — the paths for which an entry point has the arms it needs;
* `routing_coherent` — the two are equivalent.

An entry point that lacks the arm of a filesystem does not refuse its paths: it falls through to
the disk.
-/

set_option autoImplicit false

namespace IndexOS.Lateran

open Testament

/-- The filesystems an operation can end in. -/
inductive Backend
  | tmpfs
  | host
  | proc
  | ext2
  | fat
  deriving DecidableEq

/-- `g_backend`, the format found on the disk. -/
inductive Root
  | none
  | fat
  | ext2
  deriving DecidableEq

/-- A file operation.  `rmdir` is no entry point; tmpfs has it as an operation of its own. -/
inductive FsOp
  | stat (path : CString)
  | isDir (path : CString)
  | listDir (path : CString) (max : Nat)
  | readFile (path : CString) (cap : Nat)
  | pread (path : CString) (offset len : Nat)
  | pwrite (path : CString) (off : Nat) (buf : List UInt8)
  | writeFile (path : CString) (buf : List UInt8)
  | unlink (path : CString)
  | rmdir (path : CString)
  | mkdir (path : CString)
  | readlink (path : CString) (cap : Nat)
  | symlink (target path : CString)
  | truncate (path : CString) (newSize : Nat)
  | chmod (path : CString) (newMode : Nat)
  | chown (path : CString) (uid gid : Nat)
  | utime (path : CString) (atime mtime : Int)
  | rename (oldPath newPath : CString)
  deriving DecidableEq

/-- A call of one filesystem's implementation of an operation: `⟨.host, .stat sub⟩` is
`stiyl_stat(sub, …)`, `⟨.tmpfs, .pwrite path off buf⟩` is `tmpfs_append_file`. -/
structure BackendCall where
  backend : Backend
  op : FsOp
  deriving DecidableEq

/-- What an entry point does: it hands the operation on and returns what comes back, or it returns
a failure at once (`false` and an empty listing are 0). -/
inductive Dispatch
  | call (c : BackendCall)
  | fail (ret : Int)
  deriving DecidableEq

/-! ## Who owns a path -/

/-- `strip_host_prefix`: the path inside the host share. -/
def stripHostPrefix (path : CString) : Option CString :=
  if (cstr "/host").isPrefixOf path then
    match path.drop 5 with
    | [] => some []
    | c :: cs => if c = slash then some (c :: cs) else none
  else none

def procfsOwnsPath (path : CString) : Bool := (cstr "/proc").isPrefixOf path

def tmpfsOwnsPath (s : Tmpfs) (path : CString) : Bool := (findMount s path).isSome

def tmpfsIsDir (s : Tmpfs) (path : CString) : Bool :=
  match resolve s path with
  | none => false
  | some n => (s.nodes n).isDir

/-! ## The entry points -/

/-- The order of the tests in most entry points.  `onTmpfs` is what tmpfs is asked to do;
`hostArm` and `procArm` are `none` where the entry point has no such test; `fatArm` says whether
the FAT16 code implements the operation; `failed` is returned when nobody does. -/
def route (s : Tmpfs) (root : Root) (path : CString) (op onTmpfs : FsOp)
    (hostArm : Option (CString → FsOp)) (procArm : Option Dispatch) (fatArm : Bool)
    (failed : Int) : Dispatch :=
  if tmpfsOwnsPath s path then .call ⟨.tmpfs, onTmpfs⟩
  else match hostArm.bind fun arm => (stripHostPrefix path).map arm with
    | some hostOp => .call ⟨.host, hostOp⟩
    | none =>
      match if procfsOwnsPath path then procArm else none with
      | some d => d
      | none =>
        match root with
        | .ext2 => .call ⟨.ext2, op⟩
        | .fat => if fatArm then .call ⟨.fat, op⟩ else .fail failed
        | .none => .fail failed

variable (s : Tmpfs) (root : Root)

def lateranStat (path : CString) : Dispatch :=
  route s root path (.stat path) (.stat path) (some .stat) (some (.call ⟨.proc, .stat path⟩)) true 0

def lateranIsDir (path : CString) : Dispatch :=
  route s root path (.isDir path) (.isDir path) (some .isDir)
    (some (.call ⟨.proc, .isDir path⟩)) true 0

def lateranListDir (path : CString) (max : Nat) : Dispatch :=
  route s root path (.listDir path max) (.listDir path max) (some fun sub => .listDir sub max)
    (some (.call ⟨.proc, .listDir path max⟩)) true 0

def lateranReadFile (path : CString) (cap : Nat) : Dispatch :=
  route s root path (.readFile path cap) (.readFile path cap) (some fun sub => .readFile sub cap)
    (some (.call ⟨.proc, .readFile path cap⟩)) true (-1)

def lateranPread (path : CString) (offset len : Nat) : Dispatch :=
  route s root path (.pread path offset len) (.pread path offset len) none (some (.fail (-1)))
    false (-1)

/-- `lateran_pwrite` excludes the host share where the others divert to it. -/
def lateranPwrite (path : CString) (off : Nat) (buf : List UInt8) : Dispatch :=
  if tmpfsOwnsPath s path then .call ⟨.tmpfs, .pwrite path off buf⟩
  else if root = .ext2 ∧ stripHostPrefix path = none then .call ⟨.ext2, .pwrite path off buf⟩
  else .fail (-2)

def lateranWriteFile (path : CString) (buf : List UInt8) : Dispatch :=
  route s root path (.writeFile path buf) (.writeFile path buf) (some fun sub => .writeFile sub buf)
    none true (-1)

def lateranUnlink (path : CString) : Dispatch :=
  route s root path (.unlink path) (if tmpfsIsDir s path then .rmdir path else .unlink path)
    (some .unlink) none true 0

def lateranMkdir (path : CString) : Dispatch :=
  route s root path (.mkdir path) (.mkdir path) none none true 0

def lateranReadlink (path : CString) (cap : Nat) : Dispatch :=
  route s root path (.readlink path cap) (.readlink path cap) none none false (-1)

def lateranSymlink (target path : CString) : Dispatch :=
  route s root path (.symlink target path) (.symlink target path) none none false 0

def lateranTruncate (path : CString) (newSize : Nat) : Dispatch :=
  route s root path (.truncate path newSize) (.truncate path newSize)
    (some fun sub => .truncate sub newSize) none false 0

def lateranChmod (path : CString) (newMode : Nat) : Dispatch :=
  route s root path (.chmod path newMode) (.chmod path newMode) none none false 0

def lateranChown (path : CString) (uid gid : Nat) : Dispatch :=
  route s root path (.chown path uid gid) (.chown path uid gid) none none false 0

def lateranUtime (path : CString) (atime mtime : Int) : Dispatch :=
  route s root path (.utime path atime mtime) (.utime path atime mtime) none none false 0

/-- `lateran_rename` gives tmpfs every rename with a tmpfs path at either end. -/
def lateranRename (oldPath newPath : CString) : Dispatch :=
  if tmpfsOwnsPath s oldPath || tmpfsOwnsPath s newPath then
    .call ⟨.tmpfs, .rename oldPath newPath⟩
  else if root = .ext2 then .call ⟨.ext2, .rename oldPath newPath⟩
  else .fail 0

/-- The entry point of an operation; `rmdir` has none. -/
def lateran : FsOp → Dispatch
  | .stat path => lateranStat s root path
  | .isDir path => lateranIsDir s root path
  | .listDir path max => lateranListDir s root path max
  | .readFile path cap => lateranReadFile s root path cap
  | .pread path offset len => lateranPread s root path offset len
  | .pwrite path off buf => lateranPwrite s root path off buf
  | .writeFile path buf => lateranWriteFile s root path buf
  | .unlink path => lateranUnlink s root path
  | .rmdir _ => .fail 0
  | .mkdir path => lateranMkdir s root path
  | .readlink path cap => lateranReadlink s root path cap
  | .symlink target path => lateranSymlink s root target path
  | .truncate path newSize => lateranTruncate s root path newSize
  | .chmod path newMode => lateranChmod s root path newMode
  | .chown path uid gid => lateranChown s root path uid gid
  | .utime path atime mtime => lateranUtime s root path atime mtime
  | .rename oldPath newPath => lateranRename s root oldPath newPath

/-! ## Coherence -/

/-- The paths an operation acts on.  A symlink's target is only text. -/
def FsOp.paths : FsOp → List CString
  | .stat path | .isDir path | .listDir path _ | .readFile path _ | .pread path _ _
  | .pwrite path _ _ | .writeFile path _ | .unlink path | .rmdir path | .mkdir path
  | .readlink path _ | .symlink _ path | .truncate path _ | .chmod path _ | .chown path _ _
  | .utime path _ _ => [path]
  | .rename oldPath newPath => [oldPath, newPath]

/-- The same operation on the path `sub` of the host share. -/
def FsOp.onHost (sub : CString) : FsOp → FsOp
  | .stat _ => .stat sub
  | .isDir _ => .isDir sub
  | .listDir _ max => .listDir sub max
  | .readFile _ cap => .readFile sub cap
  | .pread _ offset len => .pread sub offset len
  | .pwrite _ off buf => .pwrite sub off buf
  | .writeFile _ buf => .writeFile sub buf
  | .unlink _ => .unlink sub
  | .rmdir _ => .rmdir sub
  | .mkdir _ => .mkdir sub
  | .readlink _ cap => .readlink sub cap
  | .symlink target _ => .symlink target sub
  | .truncate _ newSize => .truncate sub newSize
  | .chmod _ newMode => .chmod sub newMode
  | .chown _ uid gid => .chown sub uid gid
  | .utime _ atime mtime => .utime sub atime mtime
  | .rename _ newPath => .rename sub newPath

/-- The backend `lateran_stat` asks about `path` when the disk is ext2. -/
def selected (path : CString) : Backend :=
  match lateranStat s .ext2 path with
  | .call c => c.backend
  | .fail _ => .ext2

/-- The call by which a backend carries out `op` for `path`.  Only tmpfs tells removing a
directory from removing a file. -/
def carry (path : CString) (op : FsOp) : Backend → BackendCall
  | .tmpfs =>
    match op with
    | .unlink p => ⟨.tmpfs, if tmpfsIsDir s p then .rmdir p else .unlink p⟩
    | op => ⟨.tmpfs, op⟩
  | .host => ⟨.host, op.onHost ((stripHostPrefix path).getD [])⟩
  | b => ⟨b, op⟩

/-- The calls that fail and change nothing, whatever is in the filesystems: renames tmpfs refuses
in this state. -/
def Refused (c : BackendCall) : Prop :=
  ∃ oldPath newPath, c = ⟨.tmpfs, .rename oldPath newPath⟩ ∧
    tmpfsRename s oldPath newPath = (false, s)

/-- For each of its paths, the operation is carried out by the backend `lateran_stat` selects, or
fails without changing any backend. -/
def Coherent (op : FsOp) : Prop :=
  ∀ path ∈ op.paths,
    match lateran s .ext2 op with
    | .fail _ => True
    | .call c => c = carry s path op (selected s path) ∨ Refused s c

/-- Does the path belong to the host share, or to `/proc`? -/
def isHost (path : CString) : Bool := !tmpfsOwnsPath s path && (stripHostPrefix path).isSome
def isProc (path : CString) : Bool := !tmpfsOwnsPath s path && procfsOwnsPath path

/-- The entry point has the arms the path needs. -/
def Routed : FsOp → Bool
  | .stat _ | .isDir _ | .listDir _ _ | .readFile _ _ | .rmdir _ => true
  | .pread path _ _ => !isHost s path
  | .pwrite path _ _ | .writeFile path _ | .unlink path | .truncate path _ => !isProc s path
  | .mkdir path | .readlink path _ | .symlink _ path | .chmod path _ | .chown path _ _
  | .utime path _ _ => !isHost s path && !isProc s path
  | .rename oldPath newPath =>
    tmpfsOwnsPath s oldPath || tmpfsOwnsPath s newPath ||
      (!isHost s oldPath && !isProc s oldPath && !isHost s newPath && !isProc s newPath)

variable {s} {path : CString} {oldPath newPath : CString}

/-- No path is below both `/host` and `/proc`. -/
theorem procfsOwnsPath_of_stripHostPrefix {sub : CString} (h : stripHostPrefix path = some sub) :
    procfsOwnsPath path = false := by
  rw [stripHostPrefix] at h
  split at h
  · rename_i hhost
    rw [procfsOwnsPath, Bool.eq_false_iff]
    intro hproc
    rw [List.isPrefixOf_iff_prefix] at hhost hproc
    have heq := (List.prefix_of_prefix_length_le hhost hproc (by decide)).eq_of_length (by decide)
    cases heq
  · cases h

/-- Where a path can lie. -/
theorem path_cases (s : Tmpfs) (path : CString) :
    (tmpfsOwnsPath s path = true ∧ selected s path = .tmpfs ∧ isHost s path = false ∧
      isProc s path = false) ∨
    (tmpfsOwnsPath s path = false ∧ (∃ sub, stripHostPrefix path = some sub) ∧
      procfsOwnsPath path = false ∧ selected s path = .host ∧ isHost s path = true ∧
      isProc s path = false) ∨
    (tmpfsOwnsPath s path = false ∧ stripHostPrefix path = none ∧ procfsOwnsPath path = true ∧
      selected s path = .proc ∧ isHost s path = false ∧ isProc s path = true) ∨
    (tmpfsOwnsPath s path = false ∧ stripHostPrefix path = none ∧ procfsOwnsPath path = false ∧
      selected s path = .ext2 ∧ isHost s path = false ∧ isProc s path = false) := by
  cases ht : tmpfsOwnsPath s path with
  | true => exact Or.inl (by simp [selected, lateranStat, route, isHost, isProc, ht])
  | false =>
    refine Or.inr ?_
    cases hh : stripHostPrefix path with
    | some sub =>
      have hp := procfsOwnsPath_of_stripHostPrefix hh
      exact Or.inl (by simp [selected, lateranStat, route, isHost, isProc, ht, hh, hp])
    | none =>
      refine Or.inr ?_
      cases hp : procfsOwnsPath path with
      | true => exact Or.inl (by simp [selected, lateranStat, route, isHost, isProc, ht, hh, hp])
      | false => exact Or.inr (by simp [selected, lateranStat, route, isHost, isProc, ht, hh, hp])

/-- tmpfs refuses a rename that leaves its mounts. -/
theorem tmpfsRename_foreign
    (h : tmpfsOwnsPath s oldPath = false ∨ tmpfsOwnsPath s newPath = false) :
    tmpfsRename s oldPath newPath = (false, s) := by
  have hnone : ∀ {p : CString}, tmpfsOwnsPath s p = false → findMount s p = none := by
    simp [tmpfsOwnsPath]
  rw [tmpfsRename]
  rcases h with hold | hnew
  · rw [resolve, hnone hold]
  · split
    · rfl
    · split
      · rfl
      · rw [resolveParent, hnone hnew]

/-! ## The entry points that use `route` -/

/-- What `route` has to be given to serve `op`: its tmpfs and host arms do `op`, and its `/proc`
arm does `op` or refuses it. -/
structure Serves (s : Tmpfs) (path : CString) (op onTmpfs : FsOp)
    (hostArm : Option (CString → FsOp)) (procArm : Option Dispatch) : Prop where
  paths : op.paths = [path]
  tmpfs : carry s path op .tmpfs = ⟨.tmpfs, onTmpfs⟩
  host : ∀ arm ∈ hostArm, ∀ sub, arm sub = op.onHost sub
  proc : ∀ d ∈ procArm, d = .call ⟨.proc, op⟩ ∨ ∃ ret, d = .fail ret

theorem not_refused {b : Backend} {op : FsOp} (h : op.paths = [path]) : ¬ Refused s ⟨b, op⟩ := by
  rintro ⟨o, n, heq, -⟩
  rw [BackendCall.mk.injEq] at heq
  rw [heq.2, FsOp.paths] at h
  simp at h

/-- An entry point that is a `route` is coherent on the paths whose arms it has. -/
theorem coherent_of_route {op onTmpfs : FsOp} {hostArm : Option (CString → FsOp)}
    {procArm : Option Dispatch} {fatArm : Bool} {failed : Int}
    (hl : lateran s .ext2 op = route s .ext2 path op onTmpfs hostArm procArm fatArm failed)
    (hs : Serves s path op onTmpfs hostArm procArm) :
    Coherent s op ↔
      (hostArm.isSome || !isHost s path) && (procArm.isSome || !isProc s path) = true := by
  have hone : Coherent s op ↔
      match route s .ext2 path op onTmpfs hostArm procArm fatArm failed with
      | .fail _ => True
      | .call c => c = carry s path op (selected s path) ∨ Refused s c := by
    rw [Coherent, hs.paths, hl]
    simp only [List.mem_singleton, forall_eq]
  rw [hone, route]
  obtain ⟨ht, hsel, hh, hp⟩ | ⟨ht, ⟨sub, hstrip⟩, hproc, hsel, hh, hp⟩ |
    ⟨ht, hstrip, hproc, hsel, hh, hp⟩ | ⟨ht, hstrip, hproc, hsel, hh, hp⟩ := path_cases s path
  · simp [ht, hsel, hh, hp, hs.tmpfs]
  · cases hostArm with
    | some arm => simp [ht, hsel, hp, hstrip, carry, hs.host arm rfl]
    | none => simp [ht, hsel, hh, hproc, carry, not_refused hs.paths]
  · cases hprocArm : procArm with
    | some d =>
      obtain rfl | ⟨ret, rfl⟩ := hs.proc d hprocArm
      · cases hostArm <;> simp [ht, hsel, hh, hproc, hstrip, carry]
      · cases hostArm <;> simp [ht, hh, hproc, hstrip]
    | none => cases hostArm <;> simp [ht, hsel, hp, hstrip, carry, not_refused hs.paths]
  · cases hostArm <;> simp [ht, hsel, hh, hp, hproc, hstrip, carry]

theorem coherent_pwrite (path : CString) (off : Nat) (buf : List UInt8) :
    Coherent s (.pwrite path off buf) ↔ isProc s path = false := by
  simp only [Coherent, FsOp.paths, lateran, lateranPwrite]
  have href : ∀ b, ¬ Refused s ⟨b, .pwrite path off buf⟩ := fun b => not_refused rfl
  obtain ⟨ht, hsel, -, hp⟩ | ⟨ht, ⟨sub, hstrip⟩, -, -, -, hp⟩ |
    ⟨ht, hstrip, -, hsel, -, hp⟩ | ⟨ht, hstrip, -, hsel, -, hp⟩ := path_cases s path
  · simp [ht, hsel, hp, carry]
  · simp [ht, hp, hstrip]
  · simp [ht, hsel, hp, hstrip, carry, href]
  · simp [ht, hsel, hp, hstrip, carry]

/-- A path that is neither tmpfs's, nor the host's, nor `/proc`'s is the disk's. -/
theorem selected_eq_ext2 (ht : tmpfsOwnsPath s path = false) :
    selected s path = .ext2 ↔ isHost s path = false ∧ isProc s path = false := by
  obtain ⟨ht', -⟩ | ⟨-, -, -, hsel, hh, hp⟩ | ⟨-, -, -, hsel, hh, hp⟩ | ⟨-, -, -, hsel, hh, hp⟩ :=
    path_cases s path
  · rw [ht] at ht'; cases ht'
  all_goals simp [hsel, hh, hp]

theorem carry_rename_ext2 {b : Backend} :
    (⟨.ext2, .rename oldPath newPath⟩ : BackendCall) = carry s path (.rename oldPath newPath) b ↔
      b = .ext2 := by
  cases b <;> simp [carry]

theorem coherent_rename (oldPath newPath : CString) :
    Coherent s (.rename oldPath newPath) ↔ Routed s (.rename oldPath newPath) = true := by
  simp only [Coherent, FsOp.paths, List.mem_cons, List.not_mem_nil, or_false, lateran,
    lateranRename, forall_eq_or_imp, forall_eq, Routed]
  by_cases hboth : tmpfsOwnsPath s oldPath = true ∧ tmpfsOwnsPath s newPath = true
  · have hsel : ∀ p, tmpfsOwnsPath s p = true → selected s p = .tmpfs := by
      intro p hp
      simp [selected, lateranStat, route, hp]
    simp [hboth.1, hboth.2, hsel, carry]
  by_cases hone : tmpfsOwnsPath s oldPath = true ∨ tmpfsOwnsPath s newPath = true
  · -- tmpfs is asked about a path it does not own, and refuses
    have href : Refused s ⟨.tmpfs, .rename oldPath newPath⟩ := by
      refine ⟨oldPath, newPath, rfl, tmpfsRename_foreign ?_⟩
      rw [← Bool.not_eq_true, ← Bool.not_eq_true]
      exact not_and_or.1 hboth
    simp [href, hone]
  · rw [not_or, Bool.not_eq_true, Bool.not_eq_true] at hone
    have href : ¬ Refused s ⟨.ext2, .rename oldPath newPath⟩ := by
      rintro ⟨o, n, heq, -⟩
      simp at heq
    simp only [hone.1, hone.2, Bool.or_self, Bool.false_eq_true, if_false, if_true, href, or_false,
      carry_rename_ext2, selected_eq_ext2 hone.1, selected_eq_ext2 hone.2]
    simp only [Bool.false_or, Bool.and_eq_true, Bool.not_eq_true', and_assoc]

/-- **Coherence of the dispatch.**  For every set of tmpfs mounts and every operation, the
operation is carried out by the backend `lateran_stat` selects for its path, or fails and changes
nothing, exactly when its entry point has the arms that path needs. -/
theorem routing_coherent (s : Tmpfs) (op : FsOp) : Coherent s op ↔ Routed s op = true := by
  cases op with
  | stat path =>
    rw [coherent_of_route (by rw [lateran, lateranStat]) ⟨rfl, rfl, by simp [FsOp.onHost], by simp⟩]
    simp [Routed]
  | isDir path =>
    rw [coherent_of_route (by rw [lateran, lateranIsDir])
      ⟨rfl, rfl, by simp [FsOp.onHost], by simp⟩]
    simp [Routed]
  | listDir path max =>
    rw [coherent_of_route (by rw [lateran, lateranListDir])
      ⟨rfl, rfl, by simp [FsOp.onHost], by simp⟩]
    simp [Routed]
  | readFile path cap =>
    rw [coherent_of_route (by rw [lateran, lateranReadFile])
      ⟨rfl, rfl, by simp [FsOp.onHost], by simp⟩]
    simp [Routed]
  | pread path offset len =>
    rw [coherent_of_route (by rw [lateran, lateranPread]) ⟨rfl, rfl, by simp, by simp⟩]
    simp [Routed]
  | pwrite path off buf => rw [coherent_pwrite, Routed, Bool.not_eq_true']
  | writeFile path buf =>
    rw [coherent_of_route (by rw [lateran, lateranWriteFile])
      ⟨rfl, rfl, by simp [FsOp.onHost], by simp⟩]
    simp [Routed]
  | unlink path =>
    rw [coherent_of_route (by rw [lateran, lateranUnlink])
      ⟨rfl, rfl, by simp [FsOp.onHost], by simp⟩]
    simp [Routed]
  | rmdir path => simp [Coherent, lateran, Routed]
  | mkdir path =>
    rw [coherent_of_route (by rw [lateran, lateranMkdir]) ⟨rfl, rfl, by simp, by simp⟩]
    simp [Routed]
  | readlink path cap =>
    rw [coherent_of_route (by rw [lateran, lateranReadlink]) ⟨rfl, rfl, by simp, by simp⟩]
    simp [Routed]
  | symlink target path =>
    rw [coherent_of_route (by rw [lateran, lateranSymlink]) ⟨rfl, rfl, by simp, by simp⟩]
    simp [Routed]
  | truncate path newSize =>
    rw [coherent_of_route (by rw [lateran, lateranTruncate])
      ⟨rfl, rfl, by simp [FsOp.onHost], by simp⟩]
    simp [Routed]
  | chmod path newMode =>
    rw [coherent_of_route (by rw [lateran, lateranChmod]) ⟨rfl, rfl, by simp, by simp⟩]
    simp [Routed]
  | chown path uid gid =>
    rw [coherent_of_route (by rw [lateran, lateranChown]) ⟨rfl, rfl, by simp, by simp⟩]
    simp [Routed]
  | utime path atime mtime =>
    rw [coherent_of_route (by rw [lateran, lateranUtime]) ⟨rfl, rfl, by simp, by simp⟩]
    simp [Routed]
  | rename oldPath newPath => exact coherent_rename oldPath newPath

/-- `lateran_mkdir` does not know the host share: the directory is made on the disk, where
`lateran_stat` never looks for it. -/
theorem not_coherent_mkdir_host : ¬ Coherent empty (.mkdir (cstr "/host/new")) := by
  intro h
  have hcall : lateran empty .ext2 (.mkdir (cstr "/host/new")) =
      .call ⟨.ext2, .mkdir (cstr "/host/new")⟩ := by decide +kernel
  have hsel : selected empty (cstr "/host/new") = .host := by decide +kernel
  have := h (cstr "/host/new") (List.mem_singleton.2 rfl)
  rw [hcall, hsel] at this
  rcases this with heq | href
  · cases heq
  · exact not_refused rfl href

end IndexOS.Lateran
