import IndexOS.Lib.ByteString
import IndexOS.Testament.Tree

/-!
# What a tmpfs file contains

A client of a tmpfs file sees a byte string: `tmpfs_write_file` replaces it, `tmpfs_append_file`
overwrites a part of it and `tmpfs_truncate` resizes it, and a call that fails leaves it alone.
`FileCall.apply` says so, and `runFile` runs that string beside the tables.  This file proves that
the tables refine it (`file_contents`).

The buffer of a node may be longer than the file, and after a shrink the bytes behind the end are
still those of the old file.  `tmpfs_append_file` zeroes them before it makes them part of the file
again, `ensure_cap` does when it moves the file to a new buffer, but `tmpfs_truncate` does not when
the buffer is large enough already.  So the refinement needs `FileCall.Sound`: a truncate that
grows the file inside its buffer finds zeros there.
-/

set_option autoImplicit false

namespace IndexOS.Testament

open List
open ByteString

variable {s : Tmpfs} {path : CString} {i : Nat} {ref : List UInt8}

/-- The calls that change the contents of one file. -/
inductive FileCall
  | writeFile (buf : List UInt8)
  | appendFile (buf : List UInt8) (off : Nat)
  | truncate (newSize : Nat)

/-- Make the call on `path`: whether it succeeds (a count for the writes, `true` for the
truncate), and the new state. -/
def FileCall.exec (s : Tmpfs) (env : Env) (path : CString) : FileCall → Option (Bool × Tmpfs)
  | .writeFile buf => (tmpfsWriteFile s env path buf).map fun r => (decide (0 ≤ r.1), r.2)
  | .appendFile buf off => (tmpfsAppendFile s env path buf off).map fun r => (decide (0 ≤ r.1), r.2)
  | .truncate newSize => some (tmpfsTruncate s env path newSize)

/-- What a successful call does to the byte string. -/
def FileCall.apply (ref : List UInt8) : FileCall → List UInt8
  | .writeFile buf => buf
  | .appendFile buf off => overwrite 0 ref off buf
  | .truncate newSize => resize 0 newSize ref

/-- A sequence of calls on `path`, with the byte string they should leave. -/
def runFile (path : CString) : Tmpfs → List UInt8 → List (Env × FileCall) →
    Option (Tmpfs × List UInt8)
  | s, ref, [] => some (s, ref)
  | s, ref, (env, c) :: cs =>
    (c.exec s env path).bind fun r => runFile path r.2 (if r.1 then c.apply ref else ref) cs

/-- The file a node holds. -/
def contents (n : TmNode) : List UInt8 := (n.data.getD []).take n.size

/-- What a call on the file of node `n` has to meet: an offset write does not wrap around, and a
truncate inside the buffer finds zeros up to the new end. -/
def FileCall.Sound (n : TmNode) : FileCall → Prop
  | .writeFile _ => True
  | .appendFile buf off => off + buf.length < 2 ^ 64
  | .truncate newSize =>
    newSize ≤ n.cap → ∀ b ∈ ((n.data.getD []).take newSize).drop n.size, b = 0

/-- Every call of the sequence is sound in the state it is made in. -/
def AllSound (path : CString) (i : Nat) : Tmpfs → List (Env × FileCall) → Prop
  | _, [] => True
  | s, (env, c) :: cs =>
    c.Sound (s.nodes i) ∧ ∀ r ∈ c.exec s env path, AllSound path i r.2 cs

instance (n : TmNode) : ∀ c : FileCall, Decidable (c.Sound n)
  | .writeFile _ => inferInstanceAs (Decidable True)
  | .appendFile buf off => inferInstanceAs (Decidable (off + buf.length < 2 ^ 64))
  | .truncate newSize => inferInstanceAs (Decidable (newSize ≤ n.cap →
      ∀ b ∈ ((n.data.getD []).take newSize).drop n.size, b = 0))

instance decidableAllSound (path : CString) (i : Nat) :
    ∀ (s : Tmpfs) (calls : List (Env × FileCall)), Decidable (AllSound path i s calls)
  | _, [] => .isTrue trivial
  | s, (env, c) :: cs =>
    have := fun s => decidableAllSound path i s cs
    inferInstanceAs (Decidable (_ ∧ ∀ r ∈ c.exec s env path, AllSound path i r.2 cs))

/-! ## The path keeps naming the file -/

variable {n : TmNode}

theorem lookupChild_setNode (hused : n.used = (s.nodes i).used)
    (hname : n.name = (s.nodes i).name) (hpar : n.parent = (s.nodes i).parent) (dir : Nat)
    (name : CString) : lookupChild (s.setNode i n) dir name = lookupChild s dir name := by
  rw [lookupChild]
  congr 1
  funext j
  by_cases hj : j = i
  · subst hj
    simp only [Tmpfs.setNode, Function.update_self, hused, hname, hpar]
  · simp only [Tmpfs.setNode, Function.update_of_ne hj]

theorem walk_setNode (hused : n.used = (s.nodes i).used)
    (hdir : n.isDir = (s.nodes i).isDir) (hname : n.name = (s.nodes i).name)
    (hpar : n.parent = (s.nodes i).parent) (cs : List CString) :
    ∀ cur, walk (s.setNode i n) cur cs = walk s cur cs := by
  have hisDir : ∀ j, ((s.setNode i n).nodes j).isDir = (s.nodes j).isDir := by
    intro j
    by_cases hj : j = i
    · subst hj
      simp only [Tmpfs.setNode, Function.update_self, hdir]
    · simp only [Tmpfs.setNode, Function.update_of_ne hj]
  induction cs with
  | nil => intro cur; rfl
  | cons c cs ih =>
    intro cur
    rw [walk, walk, hisDir, lookupChild_setNode hused hname hpar]
    simp only [ih]

theorem findMountFrom_setNode (path : CString) (k j : Nat) (best : Option Nat)
    (len : Nat) :
    findMountFrom (s.setNode i n) path k j best len = findMountFrom s path k j best len := by
  induction k generalizing j best len with
  | zero => rfl
  | succ k ih =>
    have hm : (s.setNode i n).mounts = s.mounts := rfl
    simp only [findMountFrom, ih, hm]

theorem resolve_setNode (hused : n.used = (s.nodes i).used)
    (hdir : n.isDir = (s.nodes i).isDir) (hname : n.name = (s.nodes i).name)
    (hpar : n.parent = (s.nodes i).parent) (path : CString) :
    resolve (s.setNode i n) path = resolve s path := by
  rw [resolve, resolve, findMount, findMountFrom_setNode, ← findMount]
  split
  · rfl
  · exact walk_setNode hused hdir hname hpar _ _

/-! ## One call -/

/-- The regular file `path` names is node `i`, and it holds `ref`. -/
structure Holds (s : Tmpfs) (path : CString) (i : Nat) (ref : List UInt8) : Prop where
  inv : TreeInv s
  res : resolve s path = some i
  isDir : (s.nodes i).isDir = false
  isSymlink : (s.nodes i).isSymlink = false
  eq : contents (s.nodes i) = ref

/-- New contents for the file, in the buffer `ensure_cap` has provided. -/
theorem Holds.set (h : Holds s path i ref) {node : TmNode} {need : Nat}
    (hg : Grown (s.nodes i) node need) (data : Option (List UInt8)) (size now : Nat)
    (hlen : (data.getD []).length = node.cap) (hsize : size ≤ node.cap) :
    Holds (s.setNode i { node with data := data, size := size, mtime := now }) path i
      ((data.getD []).take size) := by
  have hself : ∀ n, (s.setNode i n).nodes i = n := fun n => Function.update_self ..
  constructor
  · exact h.inv.setContents hg.used hg.isDir hg.name hg.parent ⟨hsize, hlen⟩
  · rw [← h.res]
    apply resolve_setNode
    exacts [hg.used, hg.isDir, hg.name, hg.parent]
  · rw [hself]; exact hg.isDir.trans h.isDir
  · rw [hself]; exact hg.isSymlink.trans h.isSymlink
  · rw [hself]; rfl

theorem Grown.refl (hb : BufOk n) : Grown n n 0 :=
  ⟨rfl, rfl, rfl, rfl, rfl, rfl, hb, Nat.zero_le _, rfl⟩

/-- Behind the file, a buffer is as it was or freshly zeroed. -/
theorem ensureCap_tail {n' : TmNode} {need : Nat} {grant : Bool} (hb : BufOk n)
    (h : ensureCap n need grant = some n') :
    n' = n ∧ need ≤ n.cap ∨ ∀ b ∈ (n'.data.getD []).drop n.size, b = 0 := by
  rw [ensureCap] at h
  split at h
  · rename_i hle
    cases h
    exact Or.inl ⟨rfl, hle⟩
  · simp only at h
    split at h
    · cases h
    · cases h
      refine Or.inr fun b hb' => ?_
      have hlen : ((n.data.getD []).take n.size).length = n.size := by
        rw [length_take, hb.len, Nat.min_eq_left hb.le]
      rw [Option.getD_some, drop_left' hlen] at hb'
      exact eq_of_mem_replicate hb'

theorem writeFile_holds (h : Holds s path i ref) (env : Env) (buf : List UInt8) :
    ∃ r, tmpfsWriteFile s env path buf = some r ∧
      Holds r.2 path i (if 0 ≤ r.1 then buf else ref) := by
  rw [tmpfsWriteFile, writeTarget, h.res]
  simp only [h.isDir, Bool.false_eq_true, if_false]
  split
  · exact ⟨_, rfl, h⟩
  rename_i node hgrow
  have hg := ensureCap_some (h.inv.buf i) hgrow
  have hcap : buf.length ≤ node.cap := by
    have := hg.enough
    split at this <;> omega
  have hfit : 0 + buf.length ≤ (node.data.getD []).length := by
    rw [hg.buf.len]
    omega
  rw [storeBytes_eq hfit]
  refine ⟨_, rfl, ?_⟩
  have hset := h.set hg (some ((node.data.getD []).take 0 ++ buf ++
    (node.data.getD []).drop (0 + buf.length))) buf.length env.now
    ((length_splice hfit).trans hg.buf.len) hcap
  rw [Option.getD_some, take_zero, nil_append, take_left] at hset
  exact hset

/-- The gap loop of `tmpfs_append_file` turns the bytes between the end of the file and the offset
to zero and keeps the file. -/
theorem zeroBytes_gap {data d : List UInt8} {size off : Nat} (hsize : size ≤ data.length)
    (h : zeroBytes data size off = some d) :
    d.length = data.length ∧ d.take size = data.take size ∧
      ∀ b ∈ (d.take off).drop size, b = 0 := by
  refine ⟨zeroBytes_length h, ?_⟩
  rw [zeroBytes] at h
  split at h
  · cases h
    refine ⟨rfl, fun b hb => ?_⟩
    rw [drop_eq_nil_of_le (by rw [length_take]; omega)] at hb
    cases hb
  split at h
  · cases h
    have hlen : (data.take size).length = size := by
      rw [length_take, Nat.min_eq_left hsize]
    have hpre : (data.take size ++ replicate (off - size) 0).length = off := by
      rw [length_append, length_replicate]
      omega
    refine ⟨?_, fun b hb => ?_⟩
    · rw [append_assoc, take_left' hlen]
    · rw [take_left' hpre, drop_left' hlen] at hb
      exact eq_of_mem_replicate hb
  · cases h

/-- What the two loops of `tmpfs_append_file` leave in the buffer. -/
theorem overwrite_grown {node : TmNode} {need off : Nat} {buf d : List UInt8}
    (hg : Grown n node need) (hcap : off + buf.length ≤ node.cap)
    (hd : zeroBytes (node.data.getD []) node.size off = some d) :
    overwrite 0 (contents n) off buf =
      (d.take off ++ buf ++ d.drop (off + buf.length)).take (max (off + buf.length) node.size) := by
  have hsize : node.size ≤ (node.data.getD []).length := by
    rw [hg.buf.len]
    exact hg.buf.le
  obtain ⟨hlen, hfile, hgap⟩ := zeroBytes_gap hsize hd
  -- the file before the write is the buffer up to `size`, whichever buffer that is
  have href : d.take node.size = contents n := by
    rw [hfile, hg.size, hg.file, contents]
  rw [← href]
  exact overwrite_take (by rw [hlen]; exact hsize) (by rw [hlen, hg.buf.len]; exact hcap) hgap

section
variable (h : Holds s path i ref) (env : Env)
include h env

theorem appendFile_holds (buf : List UInt8) {off : Nat}
    (hoff : off + buf.length < 2 ^ 64) :
    ∃ r, tmpfsAppendFile s env path buf off = some r ∧
      Holds r.2 path i (if 0 ≤ r.1 then overwrite 0 ref off buf else ref) := by
  by_cases hre : ∃ i, Reaches s env path buf.length off i
  · obtain ⟨j, hre⟩ := hre
    obtain rfl : i = j := Option.some.inj (h.res.symm.trans hre.res)
    obtain ⟨need, node, d, hg, hcap, -, -, hd, hr⟩ := hre.stores (h.inv.buf i) hoff
    refine ⟨_, hr, ?_⟩
    have hset := h.set hg (some (d.take off ++ buf ++ d.drop (off + buf.length)))
      (max (off + buf.length) node.size) env.now
      ((length_splice (by rw [zeroBytes_length hd, hg.buf.len]; exact hcap)).trans
        ((zeroBytes_length hd).trans hg.buf.len)) (Nat.max_le.2 ⟨hcap, hg.buf.le⟩)
    rw [Option.getD_some, ← overwrite_grown hg hcap hd, h.eq] at hset
    exact hset
  · obtain ⟨-, e, he, hr⟩ := tmpfsAppendFile_early (not_exists.1 hre)
    exact ⟨_, hr, by rw [if_neg (by omega)]; exact h⟩

theorem truncate_holds {newSize : Nat}
    (hs : (FileCall.truncate newSize).Sound (s.nodes i)) :
    Holds (tmpfsTruncate s env path newSize).2 path i
      (if (tmpfsTruncate s env path newSize).1 then resize 0 newSize ref else ref) := by
  rw [tmpfsTruncate, h.res]
  simp only [h.isDir, h.isSymlink, Bool.or_self, Bool.false_eq_true, if_false]
  have hb := h.inv.buf i
  have hle := hb.le
  split
  · exact h
  split
  · exact h
  rename_i node hnode
  -- either branch leaves a buffer that is large enough and has zeros up to the new end
  obtain ⟨need, hg, hcap, hzero⟩ : ∃ need, Grown (s.nodes i) node need ∧ newSize ≤ node.cap ∧
      ∀ b ∈ ((node.data.getD []).take newSize).drop (s.nodes i).size, b = 0 := by
    split at hnode
    · have hg := ensureCap_some hb hnode
      refine ⟨newSize, hg, hg.enough, ?_⟩
      obtain ⟨rfl, hroom⟩ | hfresh := ensureCap_tail hb hnode
      · exact hs hroom
      · intro b hmem
        exact hfresh b ((take_sublist _ _).drop _ |>.subset hmem)
    · cases hnode
      exact ⟨0, Grown.refl hb, by omega, hs (by omega)⟩
  have hset := h.set hg node.data newSize env.now hg.buf.len hcap
  have hroom : (s.nodes i).size ≤ (node.data.getD []).length := by
    rw [hg.buf.len, ← hg.size]
    exact hg.buf.le
  rw [← resize_take hroom (by rw [hg.buf.len]; exact hcap) hzero, hg.file] at hset
  rw [← h.eq]
  exact hset

theorem FileCall.exec_holds {c : FileCall}
    (hc : c.Sound (s.nodes i)) :
    ∃ r, c.exec s env path = some r ∧ Holds r.2 path i (if r.1 then c.apply ref else ref) := by
  cases c with
  | writeFile buf =>
    obtain ⟨r, hr, hh⟩ := writeFile_holds h env buf
    exact ⟨_, by rw [FileCall.exec, hr]; rfl, by simpa [FileCall.apply] using hh⟩
  | appendFile buf off =>
    obtain ⟨r, hr, hh⟩ := appendFile_holds h env buf hc
    exact ⟨_, by rw [FileCall.exec, hr]; rfl, by simpa [FileCall.apply] using hh⟩
  | truncate newSize => exact ⟨_, rfl, truncate_holds h env hc⟩

end

/-! ## Whole runs -/

theorem runFile_holds (calls : List (Env × FileCall)) : ∀ {s : Tmpfs} {ref : List UInt8},
    Holds s path i ref → AllSound path i s calls →
      ∃ r, runFile path s ref calls = some r ∧ Holds r.1 path i r.2 := by
  induction calls with
  | nil => exact fun h _ => ⟨_, rfl, h⟩
  | cons call calls ih =>
    obtain ⟨env, c⟩ := call
    intro s ref h hc
    obtain ⟨r, hr, hh⟩ := c.exec_holds h env hc.1
    obtain ⟨r', hr', hh'⟩ := ih hh (hc.2 r hr)
    exact ⟨r', by rw [runFile, hr, Option.bind_some, hr'], hh'⟩

/-- Both ways to read the file return its bytes. -/
theorem Holds.read (h : Holds s path i ref) :
    (∀ cap, tmpfsReadFile s path cap = some (ref.take cap)) ∧
      ∀ off len, tmpfsPread s path off len = some ((ref.drop off).take len) := by
  have hlen : (contents (s.nodes i)).length = (s.nodes i).size := by
    rw [contents, length_take, (h.inv.buf i).len, Nat.min_eq_left (h.inv.buf i).le]
  refine ⟨fun cap => ?_, fun off len => ?_⟩
  · rw [tmpfsReadFile, h.res, ← h.eq, contents, take_take]
    simp only [h.isDir, Bool.false_eq_true, if_false]
    congr 2
    split <;> omega
  · rw [tmpfsPread, h.res]
    simp only [h.isDir, Bool.false_eq_true, if_false]
    split
    · rw [← h.eq, drop_eq_nil_of_le (by omega), take_nil]
    · rw [← h.eq, contents, drop_take, take_take]
      congr 2
      split <;> omega

/-- **Tmpfs files are byte strings.**  Take any state the calls of a client can produce and a
path that names a regular file.  Any sequence of writes, offset writes and truncates on that path,
each with a heap that may or may not grant memory, runs to its end as long as every call is sound,
and reading the file then gives the bytes of the reference string. -/
theorem file_contents (history : List (Env × Call)) {s : Tmpfs} (hrun : run empty history = some s)
    (path : CString) {i : Nat} (hres : resolve s path = some i)
    (hdir : (s.nodes i).isDir = false) (hlink : (s.nodes i).isSymlink = false)
    (calls : List (Env × FileCall)) (hc : AllSound path i s calls) :
    ∃ s' ref, runFile path s (contents (s.nodes i)) calls = some (s', ref) ∧
      (∀ cap, tmpfsReadFile s' path cap = some (ref.take cap)) ∧
      ∀ off len, tmpfsPread s' path off len = some ((ref.drop off).take len) := by
  have h : Holds s path i (contents (s.nodes i)) :=
    ⟨run_treeInv history treeInv_empty hrun, hres, hdir, hlink, rfl⟩
  obtain ⟨r, hr, hh⟩ := runFile_holds calls h hc
  exact ⟨r.1, r.2, hr, hh.read⟩

theorem file_contents_append_truncate :
    ∃ s' ref, runFile (cstr "/tmp/a") ((run empty [(⟨0, true⟩, .mount (cstr "/tmp")),
        (⟨1, true⟩, .create (cstr "/tmp/a"))]).getD empty)
        (contents (((run empty [(⟨0, true⟩, .mount (cstr "/tmp")),
          (⟨1, true⟩, .create (cstr "/tmp/a"))]).getD empty).nodes 1))
        [(⟨2, true⟩, .appendFile [7, 8] 3), (⟨3, false⟩, .truncate 4),
          (⟨4, true⟩, .writeFile [1])] = some (s', ref) ∧
      (∀ cap, tmpfsReadFile s' (cstr "/tmp/a") cap = some (ref.take cap)) ∧
      ∀ off len, tmpfsPread s' (cstr "/tmp/a") off len = some ((ref.drop off).take len) := by
  refine file_contents [(⟨0, true⟩, .mount (cstr "/tmp")), (⟨1, true⟩, .create (cstr "/tmp/a"))]
    ?_ (cstr "/tmp/a") (by decide +kernel) (by decide +kernel) (by decide +kernel) _
    (by decide +kernel)
  have hsome : (run empty [(⟨0, true⟩, .mount (cstr "/tmp")),
      (⟨1, true⟩, .create (cstr "/tmp/a"))]).isSome = true := by decide +kernel
  obtain ⟨s, hs⟩ := Option.isSome_iff_exists.1 hsome
  rw [hs, Option.getD_some]

/-- A file of three bytes is cut to one and extended to three again: the bytes that were cut off
come back instead of zeros. -/
theorem not_file_contents_shrink_grow :
    ((run empty [(⟨0, true⟩, .mount (cstr "/tmp")), (⟨1, true⟩, .create (cstr "/tmp/a"))]).bind
      fun s => (runFile (cstr "/tmp/a") s [] [(⟨2, true⟩, .writeFile [1, 2, 3]),
        (⟨3, true⟩, .truncate 1), (⟨4, true⟩, .truncate 3)]).map
          fun r => (tmpfsReadFile r.1 (cstr "/tmp/a") 8, r.2.take 8)) =
      some (some [1, 2, 3], [1, 0, 0]) := by
  decide +kernel

/-! ## Where an offset write stores -/

/-- An offset write stores inside the buffer, and either all of its bytes are in the file
afterwards or nothing has changed.  The growth loop has ended by `need` turns. -/
structure StaysInside (s : Tmpfs) (env : Env) (path : CString) (buf : List UInt8) (off : Nat) :
    Prop where
  inside : ∀ k ∈ (appendStores s env path buf off).1, k < (appendStores s env path buf off).2
  stored : ∃ r, tmpfsAppendFile s env path buf off = some r ∧
    (r.2 = s ∨ r.1 = buf.length ∧ ∃ i, resolve s path = some i ∧
      contents (r.2.nodes i) = overwrite 0 (contents (s.nodes i)) off buf)
  ends : ∀ need nc extra, 0 < nc → growCap need (need + extra) nc = growCap need need nc ∧
    need ≤ growCap need need nc

variable {env : Env} {buf : List UInt8} {off : Nat}

/-- A wrapped write stores at the last 32-bit index, which no buffer has. -/
theorem Reaches.not_staysInside (h : Reaches s env path buf.length off i)
    (hwrap : 2 ^ 64 ≤ off + buf.length) (hcap : (s.nodes i).cap < 2 ^ 32) (hoff : off < 2 ^ 64)
    (hlen : buf.length < 2 ^ 32) : ¬StaysInside s env path buf off := by
  intro hin
  obtain ⟨node, hgrow, hst, -⟩ := h.append
  have hlt : node.cap < 2 ^ 32 := by
    have := growCap_lt (show max 1 ((off + buf.length) % 2 ^ 64) < 2 ^ 32 by omega)
    grind [ensureCap]
  have hk := hin.inside (2 ^ 32 - 1)
  rw [hst] at hk
  have hmem : 2 ^ 32 - 1 ∈ (range buf.length).map fun k => (off % 2 ^ 32 + k) % 2 ^ 32 :=
    mem_map.2 ⟨2 ^ 32 - 1 - off % 2 ^ 32, mem_range.2 (by omega), by omega⟩
  have := hk (mem_append_right _ hmem)
  omega

/-- **Where offset writes stay in their buffer.**  Take a path whose node, if there is one, has a
buffer of `cap` bytes with the file in it.  An offset write there stores inside the buffer, and all
of its bytes or none, exactly when it does not get to its loops with an end beyond 64 bits. -/
theorem staysInside_iff (s : Tmpfs) (env : Env) (path : CString) (buf : List UInt8) (off : Nat)
    (hbuf : ∀ i, resolve s path = some i → BufOk (s.nodes i) ∧ (s.nodes i).cap < 2 ^ 32)
    (hoff : off < 2 ^ 64) (hlen : buf.length < 2 ^ 32) :
    StaysInside s env path buf off ↔
      ¬(2 ^ 64 ≤ off + buf.length ∧ ∃ i, Reaches s env path buf.length off i) := by
  constructor
  · rintro h ⟨hwrap, i, hr⟩
    exact hr.not_staysInside hwrap (hbuf i hr.res).2 hoff hlen h
  intro hw
  have hends (need nc extra : Nat) (hpos : 0 < nc) :
      growCap need (need + extra) nc = growCap need need nc ∧ need ≤ growCap need need nc :=
    ⟨growCap_stable extra need nc hpos (by omega), growCap_ge need need nc hpos (by omega)⟩
  by_cases hre : ∃ i, Reaches s env path buf.length off i
  · obtain ⟨i, hr⟩ := hre
    obtain ⟨need, node, d, hg, hcap, hroom, hidx, hd, hap⟩ := hr.stores (hbuf i hr.res).1
      (Nat.lt_of_not_le fun hle => hw ⟨hle, i, hr⟩)
    refine ⟨fun k hk => ?_, ⟨_, hap, .inr ⟨rfl, i, hr.res, ?_⟩⟩, hends⟩
    · rw [hroom]
      exact Nat.lt_of_lt_of_le (hidx k hk) hcap
    · rw [overwrite_grown hg hcap hd]
      simp only [Tmpfs.setNode, Function.update_self, contents, Option.getD_some]
  · obtain ⟨hst, e, -, he⟩ := tmpfsAppendFile_early (not_exists.1 hre)
    exact ⟨by simp [hst], ⟨_, he, .inl rfl⟩, hends⟩

/-- One file `/tmp/a`, empty. -/
def oneFile : Tmpfs :=
  (run empty [(⟨0, true⟩, .mount (cstr "/tmp")), (⟨1, true⟩, .create (cstr "/tmp/a"))]).getD empty

theorem staysInside_iff_oneFile : StaysInside oneFile ⟨2, true⟩ (cstr "/tmp/a") [7, 8] 100 :=
  (staysInside_iff oneFile ⟨2, true⟩ (cstr "/tmp/a") [7, 8] 100 (by
    intro i hi
    have hone : resolve oneFile (cstr "/tmp/a") = some 1 := by decide +kernel
    obtain rfl := Option.some.inj (hone.symm.trans hi)
    exact ⟨⟨by decide +kernel, by decide +kernel⟩, by decide +kernel⟩) (by decide)
    (by decide)).2 fun h => nomatch h.1

/-- Two bytes at the last offset there is: the end is computed as 1, which the guard and
`ensure_cap` accept. -/
theorem not_staysInside_last : ¬StaysInside oneFile ⟨2, true⟩ (cstr "/tmp/a") [1, 2] (2 ^ 64 - 1) :=
  Reaches.not_staysInside (i := 1) ⟨by decide +kernel, by decide +kernel, by decide, .inr rfl⟩
    (by decide) (by decide +kernel) (by decide) (by decide)

end IndexOS.Testament
