import IndexOS.Files.Offsets

/-!
# Descriptors and open file descriptions

An offset that is kept by value in every descriptor is shared only as long as nobody moves it while
somebody else has a descriptor of the same description.  `World.Careful` says just that, together
with what the calls do not look at: `O_CLOEXEC` of `openat`, the flags of `dup3`, and where the file
ends when an `O_APPEND` descriptor is written.

* `World.Inv`, `World.Inv.step` — careful calls keep it;
* `World.Inv.careful` — and no others do;
* `descriptions_iff` — the main theorem, `descriptions_broken` — what goes wrong otherwise.
-/

set_option autoImplicit false

namespace IndexOS.Files

open List
open Function (update update_apply update_of_ne update_self)
open Traces

variable {by_ : WriteBy} {buf bytes l : List UInt8} {e : Call}

namespace World

structure Inv (w : World) : Prop where
  sound : Sound w
  /-- the next description is new -/
  fresh : ∀ a, w.isOpen a = true → (w.marks a).desc < w.next

variable {w : World} {a : At}

theorem isOpen_iff : w.isOpen a = true ↔ (w.fds a).kind ≠ .closed := by simp [isOpen]

/-- The invariant, with the open descriptors told by their kinds. -/
theorem inv_iff : Inv w ↔ (∀ a b, (w.fds a).kind ≠ .closed → (w.fds b).kind ≠ .closed →
      (w.marks a).desc = (w.marks b).desc → (w.fds a).off = (w.fds b).off) ∧
    (∀ a, (w.fds a).kind ≠ .closed → (w.fds a).cloexec = (w.marks a).flag) ∧
    ∀ a, (w.fds a).kind ≠ .closed → (w.marks a).desc < w.next := by
  simp only [← isOpen_iff]
  exact ⟨fun h => ⟨h.sound.shared, h.sound.flags, h.fresh⟩, fun h => ⟨⟨h.1, h.2.1⟩, h.2.2⟩⟩

section
variable (h : Inv w)
include h

/-- One entry of one table is written. -/
theorem Inv.put {fd : Fd} {mark : Mark} {appends : Nat → Bool} {n : Nat} (hn : w.next ≤ n)
    (hfd : fd.kind ≠ .closed → fd.cloexec = mark.flag ∧ mark.desc < n ∧
      ∀ b, b ≠ a → w.isOpen b = true → (w.marks b).desc = mark.desc → (w.fds b).off = fd.off) :
    Inv { w.put a fd mark with appends := appends, next := n } := by
  rw [inv_iff] at h ⊢
  simp only [isOpen_iff] at hfd
  simp only [put]
  grind [update_apply]

/-- A descriptor is copied, with its flag as it should be. -/
theorem Inv.copy (hopen : w.isOpen a = true) {b : At} {flag cloexec : Bool}
    (hflag : cloexec = flag) : Inv (w.put b { w.fds a with cloexec } { w.marks a with flag }) := by
  refine h.put (Nat.le_refl _) fun _ => ⟨hflag, h.fresh a hopen, fun c _ hc hdesc => ?_⟩
  exact h.sound.shared c a hc hopen hdesc

theorem Inv.openat {p : Nat} {path : Path} {flags : OpenFlags} {served : Bool}
    (hcare : (w.prepare path flags served).isSome →
      (w.freeNum p 3).isSome → flags.cloexec = false) :
    Inv (w.openat p path flags served) := by
  rw [World.openat]
  cases hprep : w.prepare path flags served with
  | none => exact h
  | some l =>
    have hfiles : Inv { w with files := update w.files path (some l) } :=
      ⟨⟨h.sound.shared, h.sound.flags⟩, h.fresh⟩
    dsimp only
    cases hnum : freeNum { w with files := update w.files path (some l) } p 3 with
    | none => exact hfiles
    | some i =>
      have hnum' : w.freeNum p 3 = some i := hnum
      rw [hprep, hnum'] at hcare
      refine hfiles.put (Nat.le_succ _) fun _ =>
        ⟨(hcare rfl rfl).symm, Nat.lt_succ_self _, fun b _ hb hdesc => ?_⟩
      exact absurd hdesc (Nat.ne_of_lt (h.fresh b hb))

theorem Inv.move (hcare : w.Alone e) : Inv (w.move e) := by
  have hsame : ∀ files, Inv { w with files := files } :=
    fun files => ⟨⟨h.sound.shared, h.sound.flags⟩, h.fresh⟩
  rw [World.move]
  cases hmoves : w.moves e with
  | none => exact hsame _
  | some r =>
    obtain ⟨a, pos⟩ := r
    have hcare := hcare a pos hmoves
    rw [inv_iff] at h ⊢
    simp only [Sole, isOpen_iff] at hcare
    grind [update_apply]

theorem Inv.fork (p c : Nat) : Inv (w.fork p c) := by
  rw [World.fork]
  split
  · exact h
  · rw [inv_iff] at h ⊢
    grind

theorem Inv.execve (p : Nat) : Inv (w.execve p) := by
  rw [inv_iff] at h ⊢
  simp only [execve]
  grind

theorem Inv.close (a : At) : Inv (w.close a) := by
  rw [World.close]
  split
  · exact h
  · exact h.put (Nat.le_refl _) fun hopen => absurd rfl hopen

theorem Inv.step (hcare : w.Careful e) : Inv (w.step e) := by
  rw [World.step]
  split
  next halive =>
    have hcare := hcare halive
    cases e with
    | openat p path flags served => exact h.openat hcare
    | read | lseek => exact h.move hcare
    | write a buf by_ => exact h.move hcare.1
    | dup a =>
      rw [call, dup]
      split
      next i hi =>
        split
        next hopen => exact h.copy hopen (hcare hopen (by rw [hi]; rfl))
        · exact h
      · exact h
    | dup3 a new cloexec =>
      rw [call, dup3]
      split
      next hboth => exact h.copy hboth.1 (hcare hboth.1 hboth.2)
      · exact h
    | dupfd a minfd cloexec =>
      rw [call, dupfd]
      split
      · split
        next hopen => exact h.copy hopen rfl
        · exact h
      · exact h
    | setfd a cloexec =>
      rw [call, setfd]
      split
      next hopen => exact h.copy hopen rfl
      · exact h
    | fork p c => exact h.fork p c
    | execve p loaded =>
      cases loaded with
      | true => exact h.execve p
      | false => exact h
    | close a => exact h.close a
  · exact h

end

theorem Inv.start (files : Path → Option (List UInt8)) : Inv (start files) := by
  refine ⟨⟨fun a b ha hb _ => ?_, fun a ha => ?_⟩, fun a ha => ?_⟩
  all_goals simp only [isOpen_iff, World.start] at *
  all_goals grind

/-! ## What careful calls do -/

theorem length_splice (l bytes : List UInt8) (off : Nat) :
    (splice l off bytes).length = max l.length (off + bytes.length) := by
  simp only [splice, length_append, length_take, length_replicate, length_drop]
  omega

/-- Bytes come after the first `n` when they are written at `n`, and only then. -/
theorem drop_splice_iff {l bytes : List UInt8} {off n : Nat} (hl : l.length ≤ n)
    (hbytes : bytes ≠ []) : (splice l off bytes).drop n = bytes ↔ off = n := by
  constructor
  · intro hdrop
    have hlen := congrArg length hdrop
    have hpos : 0 < bytes.length := length_pos_iff.2 hbytes
    rw [length_drop, length_splice] at hlen
    omega
  · rintro rfl
    have hfirst : ((l ++ replicate (off - l.length) 0).take off).length = off := by
      simp only [length_take, length_append, length_replicate]
      omega
    have hrest : l.drop (off + bytes.length) = [] := drop_eq_nil_of_le (by omega)
    rw [splice, hrest, append_nil]
    exact drop_left' hfirst

/-- Whatever the filesystem, the bytes are put at the offset. -/
theorem written_eq (hwritten : w.written a buf by_ = some (l, bytes)) (hbytes : bytes ≠ []) :
    ∃ base : List UInt8, base.length ≤ (w.file a).length ∧ l = splice base
      (w.fds a).off.toNat bytes := by
  cases by_ with
  | positional stored =>
    simp only [written, Option.some.injEq, Prod.mk.injEq] at hwritten
    obtain ⟨hl, rfl⟩ := hwritten
    exact ⟨w.file a, Nat.le_refl _, by rw [← hl, if_neg hbytes]⟩
  | whole seen =>
    simp only [written] at hwritten
    split at hwritten
    · cases hwritten
    · simp only [Option.some.injEq, Prod.mk.injEq] at hwritten
      obtain ⟨hl, rfl⟩ := hwritten
      refine ⟨_, ?_, hl.symm⟩
      split
      · exact length_take_le' ..
      · exact Nat.zero_le _
  | failed => cases hwritten

theorem call_fds_of_moves {pos : UInt64} (hmoves : w.moves e = some (a, pos)) :
    (w.call e).fds = update w.fds a { w.fds a with off := pos } := by
  have hcall : w.call e = w.move e := by
    cases e with
    | read | write | lseek => rfl
    | _ => cases hmoves
  rw [hcall, move, hmoves]

/-- The file after a write. -/
theorem file_write (hwrites : w.writes a) (hwritten : w.written a buf by_ = some (l, bytes)) :
    (w.call (.write a buf by_)).file a = l := by
  have hmoves : w.moves (.write a buf by_) = some (a, (w.fds a).off + .ofNat bytes.length) := by
    simp only [moves, if_pos hwrites, hwritten, Option.map_some]
  have hstores : w.stores (.write a buf by_) = some ((w.fds a).path, l) := by
    simp only [stores, if_pos hwrites, hwritten, Option.map_some]
  have hpath : ((w.call (.write a buf by_)).fds a).path = (w.fds a).path := by
    rw [call_fds_of_moves hmoves, update_self]
  have hfiles : (w.call (.write a buf by_)).files = update w.files (w.fds a).path (some l) := by
    simp only [call, move, hstores]
  rw [file, contents, hpath, hfiles, update_self, Option.getD_some]

/-- What is written through a description comes at the end of the file when the offset is there. -/
theorem appended_iff (hwrites : w.writes a) (hwritten : w.written a buf by_ = some (l, bytes))
    (hbytes : bytes ≠ []) :
    ((w.call (.write a buf by_)).file a).drop (w.file a).length = bytes ↔
      (w.fds a).off.toNat = (w.file a).length := by
  obtain ⟨base, hbase, rfl⟩ := written_eq hwritten hbytes
  rw [file_write hwrites hwritten]
  exact drop_splice_iff hbase hbytes

/-- Careful calls do what is asked of them. -/
theorem Inv.proper (h : Inv w) (hcare : w.Careful e) : w.Proper e := by
  intro halive
  have hcare := hcare halive
  have hstep : w.step e = w.call e := if_pos halive
  rw [hstep]
  constructor
  · intro a pos hmoves b hdesc
    have hne : b ≠ a := fun hab => hdesc (by rw [hab])
    rw [call_fds_of_moves hmoves, update_of_ne hne]
  · cases e with
    | write a buf by_ =>
      intro happends hwrites l bytes hwritten hbytes
      exact (appended_iff hwrites hwritten hbytes).2
        (hcare.2 happends hwrites l bytes hwritten hbytes)
    | execve p loaded =>
      cases loaded with
      | false => trivial
      | true =>
        intro i hopen
        have hflag := h.sound.flags (p, i) hopen
        simp only [World.call, World.execve, if_true, true_and, hopen, hflag]
    | _ => trivial

/-! ## Nothing less will do -/

/-- Who moves an offset leaves the others of the description behind. -/
theorem Inv.alone (h : Inv w) (hafter : Sound (w.call e)) : w.Alone e := by
  intro a pos hmoves hpos b hopen hdesc
  by_contra hne
  have hkind : w.isOpen a = true := by
    rw [isOpen_iff]
    cases e with
    | read | write | lseek => grind [moves, writes, Option.map_eq_some_iff]
    | _ => cases hmoves
  have hfds := call_fds_of_moves hmoves
  have hmarks : (w.call e).marks = w.marks := by
    cases e with
    | read | write | lseek => rfl
    | _ => cases hmoves
  have hold := h.sound.shared b a hopen hkind hdesc
  have hnew := hafter.shared b a
  rw [isOpen_iff] at hopen hkind
  simp only [isOpen_iff, hfds, hmarks, update_self, update_of_ne hne] at hnew
  exact hpos ((hnew hopen hkind hdesc).symm.trans hold)

/-- What is put into a table has the flag that it should have. -/
theorem flag_of_put {w' : World} {fd : Fd} {mark : Mark} (hfds : w'.fds a = fd)
    (hmarks : w'.marks a = mark)
    (hafter : Sound w') (hopen : fd.kind ≠ .closed) : fd.cloexec = mark.flag := by
  have hflag := hafter.flags a (by rwa [isOpen_iff, hfds])
  rwa [hfds, hmarks] at hflag

/-- Only careful calls keep the descriptors to their descriptions. -/
theorem Inv.careful (h : Inv w) (hproper : w.Proper e) (hafter : Sound (w.step e)) :
    w.Careful e := by
  intro halive
  have hstep : w.step e = w.call e := if_pos halive
  have hproper := (hproper halive).2
  rw [hstep] at hproper hafter
  cases e with
  | openat p path flags served =>
    intro hprep hnum
    obtain ⟨l, hl⟩ := Option.isSome_iff_exists.1 hprep
    obtain ⟨i, hi⟩ := Option.isSome_iff_exists.1 hnum
    have hi' : freeNum { w with files := update w.files path (some l) } p 3 = some i := hi
    simp only [World.call, World.openat, hl, hi'] at hafter
    exact (flag_of_put (update_self ..) (update_self ..) hafter nofun).symm
  | read | lseek => exact h.alone hafter
  | write a buf by_ =>
    refine ⟨h.alone hafter, fun happends hwrites l bytes hwritten hbytes => ?_⟩
    exact (appended_iff hwrites hwritten hbytes).1
      (hproper happends hwrites l bytes hwritten hbytes)
  | dup a =>
    intro hopen hnum
    obtain ⟨i, hi⟩ := Option.isSome_iff_exists.1 hnum
    simp only [World.call, World.dup, hi, if_pos hopen] at hafter
    exact flag_of_put (update_self ..) (update_self ..) hafter (isOpen_iff.1 hopen)
  | dup3 a new cloexec =>
    intro hopen hne
    simp only [World.call, World.dup3, if_pos (And.intro hopen hne)] at hafter
    exact flag_of_put (update_self ..) (update_self ..) hafter (isOpen_iff.1 hopen)
  | _ => trivial

end World

/-- **Main theorem.** In a run of any processes on any files, the descriptors keep to their open
file descriptions in every state, and every call does what it should, exactly if every call is
careful. -/
theorem descriptions_iff (files : Path → Option (List UInt8)) (es : List Call) :
    (Always World.step World.Sound (.start files) es ∧ EachStep World.step World.Proper
      (.start files) es) ↔ EachStep World.step World.Careful (.start files) es :=
  always_and_eachStep_iff (I := World.Inv) (fun _ h => h.sound) (fun _ _ h hcare => h.proper hcare)
    (fun _ _ h hcare => h.step hcare) (fun _ _ h hafter hproper => h.careful hproper hafter)
    (.start files)

/-- A disk with one file of three bytes. -/
def oneFile : Path → Option (List UInt8) := fun path => if path = [47] then some [1, 2, 3] else none

/-- Ways to part from the descriptions: a read after `dup` or `fork`, `O_CLOEXEC`, the copy of a
flag by `dup` and `dup3`, a second `O_APPEND` descriptor. -/
theorem descriptions_broken :
    ¬ Always World.step World.Sound (.start oneFile)
      [.openat 0 [47] {} true, .dup (0, 3), .read (0, 3) 2 .whole] ∧
    ¬ Always World.step World.Sound (.start oneFile)
      [.openat 0 [47] {} true, .fork 0 1, .read (1, 3) 2 .whole] ∧
    ¬ Always World.step World.Sound (.start oneFile) [.openat 0 [47] { cloexec := true } true] ∧
    ¬ Always World.step World.Sound (.start oneFile)
      [.openat 0 [47] {} true, .setfd (0, 3) true, .dup (0, 3)] ∧
    ¬ Always World.step World.Sound (.start oneFile) [.openat 0 [47] {} true, .dup3 (0, 3) 5 true] ∧
    ¬ EachStep World.step World.Proper (.start oneFile)
      [.openat 0 [47] { writable := true, append := true } true,
       .openat 0 [47] { writable := true, append := true } true,
       .write (0, 3) [7] (.positional 1), .write (0, 4) [8] (.positional 1)] := by
  refine ⟨fun h => ?_, fun h => ?_, fun h => ?_, fun h => ?_, fun h => ?_, fun h => ?_⟩
  · cases h.last.shared (0, 3) (0, 4) rfl rfl rfl
  · cases h.last.shared (0, 3) (1, 3) rfl rfl rfl
  · cases h.last.flags (0, 3) rfl
  · cases h.last.flags (0, 4) rfl
  · cases h.last.flags (0, 5) rfl
  · obtain ⟨-, -, -, hwrite, -⟩ := h
    cases (hwrite rfl).2 rfl (by decide) [1, 2, 3, 8] [8] rfl (by decide)

end IndexOS.Files
