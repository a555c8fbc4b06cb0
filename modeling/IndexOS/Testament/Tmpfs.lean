import IndexOS.Lib.ParentForest

/-!
# Testament, the in-memory filesystem

`src/index/testament.cpp` keeps every tmpfs inode of every mount in one flat table of
`kMaxNodes` nodes; the tree is nothing but the `parent` index of each node.  The table is modelled
as a function from indices to nodes, the parent index `-1` as `none`.

Paths and names are C strings, i.e. byte strings without a NUL.  The loops of `walk` and
`resolve_parent` only ever look at the non-empty pieces between slashes, and `components` is that
list of pieces.

Three things come from outside and are arguments of the operations: what time it is (`now`,
`now_secs()`), whether `dark_matter_alloc` grants the one request an operation makes (`grant`),
and, for `tmpfs_utime`, the times to set.  A store through `data` that would land outside the
buffer has no defined outcome; `storeBytes` returns `none` there, and so does the operation.
-/

set_option autoImplicit false

namespace IndexOS.Testament

open ParentForest

/-- A C string without its terminating NUL. -/
abbrev CString := List UInt8

/-- The bytes of an ASCII literal. -/
def cstr (s : String) : CString := s.toList.map fun c => UInt8.ofNat c.toNat

def slash : UInt8 := 47

-- irreducible, so that no elaborator ever walks a table slot by slot
@[irreducible] def kMaxNodes : Nat := 1024
@[irreducible] def kMaxMounts : Nat := 8
def kNameCap : Nat := 256
def kPointCap : Nat := 128

/-- `TmNode`; `data` is `none` for the null pointer. -/
structure TmNode where
  used : Bool := false
  isDir : Bool := false
  isSymlink : Bool := false
  name : CString := []
  parent : Option Nat := none
  data : Option (List UInt8) := none
  size : Nat := 0
  cap : Nat := 0
  perm : Nat := 0
  uid : Nat := 0
  gid : Nat := 0
  mtime : Nat := 0
  ino : Nat := 0

/-- `TmMount` -/
structure TmMount where
  active : Bool := false
  point : CString := []
  root : Nat := 0

/-- The globals `g_nodes`, `g_mounts` and `g_ino_next`. -/
structure Tmpfs where
  nodes : Nat → TmNode
  mounts : Nat → TmMount
  inoNext : Nat

/-- The tables as they are at boot. -/
def empty : Tmpfs := ⟨fun _ => {}, fun _ => {}, 1⟩

variable (s : Tmpfs)

/-- `g_nodes[i] = n` -/
def Tmpfs.setNode (i : Nat) (n : TmNode) : Tmpfs :=
  { s with nodes := Function.update s.nodes i n }

/-- The parent links of the table. -/
def Tmpfs.parentOf (i : Nat) : Option Nat := (s.nodes i).parent

/-! ## Paths -/

/-- `s_copy`: copy what fits into a buffer of `cap` bytes, the NUL included. -/
def sCopy (src : CString) (cap : Nat) : CString := src.take (cap - 1)

/-- Split at slashes, `acc` being the piece read so far, backwards. -/
def componentsAux : CString → CString → List CString
  | [], acc => if acc = [] then [] else [acc.reverse]
  | c :: cs, acc =>
    if c = slash then
      if acc = [] then componentsAux cs [] else acc.reverse :: componentsAux cs []
    else componentsAux cs (c :: acc)

/-- The non-empty pieces of a path between its slashes. -/
def components (p : CString) : List CString := componentsAux p []

/-- `point` is a mount prefix of `path`: they are equal, or `path` goes on with a slash. -/
def pointCovers (point path : CString) : Bool :=
  point.length != 0 && point.isPrefixOf path &&
    match path.drop point.length with
    | [] => true
    | c :: _ => c == slash

/-- The loop of `find_mount` from slot `i` on, `n` slots being left. -/
def findMountFrom (s : Tmpfs) (path : CString) : Nat → Nat → Option Nat → Nat → Option Nat
  | 0, _, best, _ => best
  | n + 1, i, best, bestLen =>
    if (s.mounts i).active && pointCovers (s.mounts i).point path &&
        bestLen ≤ (s.mounts i).point.length then
      findMountFrom s path n (i + 1) (some i) (s.mounts i).point.length
    else findMountFrom s path n (i + 1) best bestLen

def findMount (path : CString) : Option Nat := findMountFrom s path kMaxMounts 0 none 0

def lookupChild (dir : Nat) (name : CString) : Option Nat :=
  (List.range kMaxNodes).find? fun i =>
    (s.nodes i).used && (s.nodes i).parent == some dir && (s.nodes i).name == name

/-- `walk`, on the list of components that are left. -/
def walk (s : Tmpfs) : Nat → List CString → Option Nat
  | cur, [] => some cur
  | cur, c :: cs =>
    if !(s.nodes cur).isDir then none
    else match lookupChild s cur c with
      | none => none
      | some n => walk s n cs

def resolve (path : CString) : Option Nat :=
  match findMount s path with
  | none => none
  | some m => walk s (s.mounts m).root (components (path.drop (s.mounts m).point.length))

/-- `resolve_parent`: the directory the last component of `path` lives in, and that component. -/
def resolveParent (path : CString) (leafCap : Nat) : Option (Nat × CString) :=
  match findMount s path with
  | none => none
  | some m =>
    let cs := components (path.drop (s.mounts m).point.length)
    match cs.getLast? with
    | none => none
    | some leaf =>
      if leaf.length + 1 > leafCap then none
      else (walk s (s.mounts m).root cs.dropLast).map fun p => (p, leaf)

/-! ## Nodes -/

/-- `alloc_node`: the first unused slot, cleared. -/
def allocNode (now : Nat) : Option (Nat × Tmpfs) :=
  match (List.range kMaxNodes).find? fun i => !(s.nodes i).used with
  | none => none
  | some i =>
    some (i, { s.setNode i { used := true, ino := s.inoNext, mtime := now } with
      inoNext := (s.inoNext + 1) % 2 ^ 32 })

def freeNode (i : Nat) : Tmpfs := s.setNode i {}

/-- The doubling loop of `ensure_cap`.  The capacity is positive, so it grows in every turn and
`need` turns are enough. -/
def growCap (need : Nat) : Nat → Nat → Nat
  | 0, nc => nc
  | fuel + 1, nc =>
    if nc < need then
      if nc > 0xFFFFFFFF / 2 then need else growCap need fuel (nc * 2)
    else nc

/-- `ensure_cap`; `none` is the answer `false`. -/
def ensureCap (n : TmNode) (need : Nat) (grant : Bool) : Option TmNode :=
  if need ≤ n.cap then some n
  else
    let nc := growCap need need (if n.cap = 0 then 64 else n.cap)
    if !grant then none
    else some { n with
      data := some ((n.data.getD []).take n.size ++ List.replicate (nc - n.size) 0)
      cap := nc }

/-- The effect of `for (i = 0; i < bytes.size; ++i) data[pos + i] = bytes[i]`; `none` if a store
falls outside the buffer. -/
def storeBytes (data : List UInt8) (pos : Nat) (bytes : List UInt8) : Option (List UInt8) :=
  if bytes = [] then some data
  else if pos + bytes.length ≤ data.length then
    some (data.take pos ++ bytes ++ data.drop (pos + bytes.length))
  else none

/-- The effect of `for (i = lo; i < hi; ++i) data[i] = 0`; `none` if a store falls outside the
buffer. -/
def zeroBytes (data : List UInt8) (lo hi : Nat) : Option (List UInt8) :=
  if hi ≤ lo then some data
  else if hi ≤ data.length then
    some (data.take lo ++ List.replicate (hi - lo) 0 ++ data.drop hi)
  else none

/-! ## The operations -/

/-- What the outside world contributes to one operation. -/
structure Env where
  /-- `now_secs()` -/
  now : Nat
  /-- Whether `dark_matter_alloc` succeeds. -/
  grant : Bool

def testamentMount (env : Env) (point : CString) : Bool × Tmpfs :=
  if point.head? != some slash then (false, s)
  else if (List.range kMaxMounts).any fun i => (s.mounts i).active &&
      pointCovers (s.mounts i).point point && (s.mounts i).point.length == point.length then
    (true, s)
  else match (List.range kMaxMounts).find? fun i => !(s.mounts i).active with
    | none => (false, s)
    | some slot =>
      match allocNode s env.now with
      | none => (false, s)
      | some (root, s₁) =>
        let s₂ := s₁.setNode root
          { s₁.nodes root with isDir := true, parent := none, perm := 0o777 }
        let mount : TmMount := { active := true, root := root, point := sCopy point kPointCap }
        (true, { s₂ with mounts := Function.update s₂.mounts slot mount })

/-- What `testament_umount` does with slot `k`: free it if the walk towards the parents, in the
table as it is by then, meets `root`.  In a forest such a walk has at most `kMaxNodes` nodes. -/
def umountNode (root : Nat) (s : Tmpfs) (k : Nat) : Tmpfs :=
  if (s.nodes k).used && meets s.parentOf root kMaxNodes k then freeNode s k else s

/-- The loop of `testament_umount` over the first `n` slots. -/
def clearUpTo (root n : Nat) : Tmpfs := (List.range n).foldl (umountNode root) s

def testamentUmount (point : CString) : Bool × Tmpfs :=
  match (List.range kMaxMounts).find? fun i => (s.mounts i).active &&
      (s.mounts i).point.length == point.length && pointCovers (s.mounts i).point point with
  | none => (false, s)
  | some i =>
    let s₁ := clearUpTo s (s.mounts i).root kMaxNodes
    (true, { s₁ with mounts := Function.update s₁.mounts i {} })

/-- `tmpfs_read_file`: the bytes copied out, or `none` for -1. -/
def tmpfsReadFile (path : CString) (cap : Nat) : Option (List UInt8) :=
  match resolve s path with
  | none => none
  | some n =>
    if (s.nodes n).isDir then none
    else
      let take := if (s.nodes n).size < cap then (s.nodes n).size else cap
      some (((s.nodes n).data.getD []).take take)

/-- `tmpfs_pread`: the bytes copied out, or `none` for -1. -/
def tmpfsPread (path : CString) (offset len : Nat) : Option (List UInt8) :=
  match resolve s path with
  | none => none
  | some n =>
    if (s.nodes n).isDir then none
    else if offset ≥ (s.nodes n).size then some []
    else
      let avail := (s.nodes n).size - offset
      let take := if len < avail then len else avail
      some ((((s.nodes n).data.getD []).drop offset).take take)

/-- The name and the parent `tmpfs_write_file`, `tmpfs_create`, `tmpfs_mkdir` and `tmpfs_symlink`
give a node they have just allocated. -/
def adopt (i parent : Nat) (leaf : CString) (n : TmNode) : Tmpfs :=
  s.setNode i { n with name := sCopy leaf kNameCap, parent := some parent }

/-- The first half of `tmpfs_write_file`: the node to write to, created if it is missing. -/
def writeTarget (env : Env) (path : CString) : Option (Nat × Tmpfs) :=
  match resolve s path with
  | some n => some (n, s)
  | none =>
    match resolveParent s path kNameCap with
    | none => none
    | some (parent, leaf) =>
      if !(s.nodes parent).isDir then none
      else if (lookupChild s parent leaf).isSome then none
      else match allocNode s env.now with
        | none => none
        | some (n, s₁) => some (n, adopt s₁ n parent leaf { s₁.nodes n with perm := 0o644 })

/-- `tmpfs_write_file`: the return value and the new state. -/
def tmpfsWriteFile (env : Env) (path : CString) (buf : List UInt8) :
    Option (Int × Tmpfs) :=
  match writeTarget s env path with
  | none => some (-1, s)
  | some (n, s₁) =>
    if (s₁.nodes n).isDir then some (-1, s₁)
    else match ensureCap (s₁.nodes n) (if buf.length = 0 then 1 else buf.length) env.grant with
      | none => some (-28, s₁)
      | some node =>
        (storeBytes (node.data.getD []) 0 buf).map fun data =>
          (buf.length, s₁.setNode n
            { node with data := some data, size := buf.length, mtime := env.now })

/-- `tmpfs_append_file`, which is a write at an offset.  `off` is a 64-bit value and `off + len`
wraps around. -/
def tmpfsAppendFile (env : Env) (path : CString) (buf : List UInt8) (off : Nat) :
    Option (Int × Tmpfs) :=
  match resolve s path with
  | none => some (-1, s)
  | some n =>
    if (s.nodes n).isDir then some (-1, s)
    else
      let fin := (off + buf.length) % 2 ^ 64
      if fin > 0xFFFFFFFF then some (-1, s)
      else match ensureCap (s.nodes n) (if fin = 0 then 1 else fin) env.grant with
        | none => some (-28, s)
        | some node =>
          let off32 := off % 2 ^ 32
          -- zero the gap between the end of the file and the write, then write
          (zeroBytes (node.data.getD []) node.size off32).bind fun data₁ =>
            (storeBytes data₁ off32 buf).map fun data₂ =>
              (buf.length, s.setNode n { node with
                data := some data₂
                size := if fin > node.size then fin else node.size
                mtime := env.now })

/-- The indices of the buffer `tmpfs_append_file` stores to, first in the gap and then the bytes,
and the capacity `ensure_cap` has left; nothing is stored where the call returns before. -/
def appendStores (env : Env) (path : CString) (buf : List UInt8) (off : Nat) :
    List Nat × Nat :=
  match resolve s path with
  | none => ([], 0)
  | some n =>
    if (s.nodes n).isDir then ([], 0)
    else
      let fin := (off + buf.length) % 2 ^ 64
      if fin > 0xFFFFFFFF then ([], 0)
      else match ensureCap (s.nodes n) (if fin = 0 then 1 else fin) env.grant with
        | none => ([], 0)
        | some node =>
          let off32 := off % 2 ^ 32
          ((List.range off32).drop node.size ++
            (List.range buf.length).map fun k => (off32 + k) % 2 ^ 32, node.cap)

/-- What `tmpfs_create`, `tmpfs_mkdir` and `tmpfs_symlink` share: a new node in the directory
`path` names, with the fields `n` says. -/
def addNode (env : Env) (path : CString) (n : TmNode → TmNode) :
    Option (Nat × Tmpfs) :=
  match resolveParent s path kNameCap with
  | none => none
  | some (parent, leaf) =>
    if !(s.nodes parent).isDir then none
    else match allocNode s env.now with
      | none => none
      | some (i, s₁) => some (i, adopt s₁ i parent leaf (n (s₁.nodes i)))

def tmpfsCreate (env : Env) (path : CString) : Bool × Tmpfs :=
  if (resolve s path).isSome then (true, s)
  else match addNode s env path fun n => { n with perm := 0o644 } with
    | none => (false, s)
    | some (_, s₁) => (true, s₁)

def tmpfsUnlink (path : CString) : Bool × Tmpfs :=
  match resolve s path with
  | none => (false, s)
  | some n => if (s.nodes n).isDir then (false, s) else (true, freeNode s n)

def tmpfsMkdir (env : Env) (path : CString) : Bool × Tmpfs :=
  if (resolve s path).isSome then (false, s)
  else match addNode s env path fun n => { n with isDir := true, perm := 0o755 } with
    | none => (false, s)
    | some (_, s₁) => (true, s₁)

/-- Is `n` the root of an active mount? -/
def isMountRoot (n : Nat) : Bool :=
  (List.range kMaxMounts).any fun i => (s.mounts i).active && (s.mounts i).root == n

def tmpfsRmdir (path : CString) : Bool × Tmpfs :=
  match resolve s path with
  | none => (false, s)
  | some n =>
    if !(s.nodes n).isDir then (false, s)
    else if (List.range kMaxNodes).any fun i =>
        (s.nodes i).used && (s.nodes i).parent == some n then (false, s)
    else if isMountRoot s n then (false, s)
    else (true, freeNode s n)

def tmpfsTruncate (env : Env) (path : CString) (newSize : Nat) : Bool × Tmpfs :=
  match resolve s path with
  | none => (false, s)
  | some n =>
    if (s.nodes n).isDir || (s.nodes n).isSymlink then (false, s)
    else if newSize > 0xFFFFFFFF then (false, s)
    else
      let grown :=
        if newSize > (s.nodes n).size then ensureCap (s.nodes n) newSize env.grant
        else some (s.nodes n)
      match grown with
      | none => (false, s)
      | some node => (true, s.setNode n { node with size := newSize, mtime := env.now })

def tmpfsRename (oldPath newPath : CString) : Bool × Tmpfs :=
  match resolve s oldPath with
  | none => (false, s)
  | some src =>
    if isMountRoot s src then (false, s)
    else match resolveParent s newPath kNameCap with
      | none => (false, s)
      | some (parent, leaf) =>
        if !(s.nodes parent).isDir then (false, s)
        -- the walk over the ancestors of the destination looks for the directory to be moved
        else if (s.nodes src).isDir && meets s.parentOf src (kMaxNodes + 1) parent then (false, s)
        else
          let move := fun s : Tmpfs => adopt s src parent leaf (s.nodes src)
          match lookupChild s parent leaf with
          | none => (true, move s)
          | some existing =>
            if existing = src then (true, s)
            else if (s.nodes existing).isDir then (false, s)
            else (true, move (freeNode s existing))

/-- `tmpfs_symlink`; the target is stored with its NUL. -/
def tmpfsSymlink (env : Env) (target path : CString) : Option (Bool × Tmpfs) :=
  if (resolve s path).isSome then some (false, s)
  else match addNode s env path fun n => { n with isSymlink := true, perm := 0o777 } with
    | none => some (false, s)
    | some (i, s₁) =>
      match ensureCap (s₁.nodes i) (target.length + 1) env.grant with
      | none => some (false, freeNode s₁ i)
      | some node =>
        (storeBytes (node.data.getD []) 0 (target ++ [0])).map fun data =>
          (true, s₁.setNode i { node with data := some data, size := target.length })

/-- What `tmpfs_chmod`, `tmpfs_chown` and `tmpfs_utime` share: they rewrite attributes of the node
a path names. -/
def setAttr (path : CString) (f : TmNode → TmNode) : Bool × Tmpfs :=
  match resolve s path with
  | none => (false, s)
  | some n => (true, s.setNode n (f (s.nodes n)))

def tmpfsChmod (path : CString) (mode : Nat) : Bool × Tmpfs :=
  setAttr s path fun n => { n with perm := mode &&& 0xFFF }

def tmpfsChown (path : CString) (uid gid : Nat) : Bool × Tmpfs :=
  setAttr s path fun n => { n with
    uid := if uid ≠ 0xFFFFFFFF then uid else n.uid
    gid := if gid ≠ 0xFFFFFFFF then gid else n.gid }

def tmpfsUtime (path : CString) (atime mtime : Int) : Bool × Tmpfs :=
  setAttr s path fun n => { n with
    mtime :=
      if mtime ≥ 0 then mtime.toNat % 2 ^ 32
      else if atime ≥ 0 then atime.toNat % 2 ^ 32
      else n.mtime }

/-! ## Runs -/

/-- The calls a client can make. -/
inductive Call
  | mount (point : CString)
  | writeFile (path : CString) (buf : List UInt8)
  | appendFile (path : CString) (buf : List UInt8) (off : Nat)
  | create (path : CString)
  | mkdir (path : CString)
  | symlink (target path : CString)
  | unlink (path : CString)
  | rmdir (path : CString)
  | rename (oldPath newPath : CString)
  | truncate (path : CString) (newSize : Nat)
  | chmod (path : CString) (mode : Nat)
  | chown (path : CString) (uid gid : Nat)
  | utime (path : CString) (atime mtime : Int)

/-- The state after a call; `none` if the call stores outside a buffer. -/
def Call.exec (env : Env) : Call → Option Tmpfs
  | .mount point => some (testamentMount s env point).2
  | .writeFile path buf => (tmpfsWriteFile s env path buf).map Prod.snd
  | .appendFile path buf off => (tmpfsAppendFile s env path buf off).map Prod.snd
  | .create path => some (tmpfsCreate s env path).2
  | .mkdir path => some (tmpfsMkdir s env path).2
  | .symlink target path => (tmpfsSymlink s env target path).map Prod.snd
  | .unlink path => some (tmpfsUnlink s path).2
  | .rmdir path => some (tmpfsRmdir s path).2
  | .rename oldPath newPath => some (tmpfsRename s oldPath newPath).2
  | .truncate path newSize => some (tmpfsTruncate s env path newSize).2
  | .chmod path mode => some (tmpfsChmod s path mode).2
  | .chown path uid gid => some (tmpfsChown s path uid gid).2
  | .utime path atime mtime => some (tmpfsUtime s path atime mtime).2

/-- A sequence of calls, each with what the outside world contributes to it. -/
def run : Tmpfs → List (Env × Call) → Option Tmpfs
  | s, [] => some s
  | s, (env, c) :: cs => (c.exec s env).bind fun s' => run s' cs

end IndexOS.Testament
