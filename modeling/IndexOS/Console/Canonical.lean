import IndexOS.Lib.Traces

/-!
# Lines from the console

In canonical mode `console_read_tty` collects the current line in a buffer of the process, where it
survives when the read parks and is replayed.  A finished line is cut to the buffer of the caller,
though, and what is cut off is dropped; and a line that does not fit into the buffer of the process
is handed out before it is finished.  What is echoed is left out.

* `canonical` — the loop; `Session` — a console, what has been typed and what reads have returned;
* `edited` — what the input means; `Faithful` — the property;
* `Roomy` — the steps at which nothing is cut off;
* `returns_lines` — the main theorem; `cut_short` — a line that is longer than the buffer of the
  caller.
-/

set_option autoImplicit false

namespace IndexOS.Consoles

open Traces List

def kInputRingSize : Nat := 256

/-- The size of `tty_line_buf`. -/
def kLineCap : Nat := 256

/-- The bytes in the input ring, and the current line of the process that reads. -/
structure Console where
  input : List UInt8 := []
  line : List UInt8 := []

/-- The ring drops its oldest byte when it is full. -/
def Console.inputPush (c : Console) (ch : UInt8) : Console :=
  { c with input := (if kInputRingSize ≤ c.input.length then c.input.tail else c.input) ++ [ch] }

inductive Answer
  | returned (bytes : List UInt8)
  | parked
  | interrupted

def Answer.bytes : Answer → List UInt8
  | .returned bytes => bytes
  | _ => []

/-- `console_read_tty` in canonical mode, with the line so far and the input. -/
def canonical (isig : Bool) (cap : Nat) : List UInt8 → List UInt8 → Answer × Console
  | line, [] => (.parked, { line })
  | line, ch :: input =>
    if ch = 3 ∧ isig then (.interrupted, { input })
    else if ch = 13 ∨ ch = 10 then
      (.returned ((if line.length < kLineCap then line ++ [10] else line).take cap), { input })
    else if (ch = 8 ∨ ch = 0x7f) ∧ 0 < line.length then canonical isig cap line.dropLast input
    else if ch ≠ 9 ∧ ch ≠ 0x1b ∧ (ch < 0x20 ∨ ch = 0x7f) then canonical isig cap line input
    else if line.length < kLineCap then canonical isig cap (line ++ [ch]) input
    else (.returned (line.take cap), { input })

structure Session extends Console where
  typed : List UInt8 := []
  got : List UInt8 := []

/-- A byte is typed, or a read begins or is replayed. -/
inductive Event
  | typed (ch : UInt8)
  | read (cap : Nat)
  deriving DecidableEq

namespace Session

def step (isig : Bool) (s : Session) : Event → Session
  | .typed ch => { s with toConsole := s.inputPush ch, typed := s.typed ++ [ch] }
  | .read cap =>
    let (answer, console) := canonical isig cap s.line s.input
    { s with toConsole := console, got := s.got ++ answer.bytes }

/-! ## What is asked of the console -/

def isEnd (ch : UInt8) : Bool := ch = 13 ∨ ch = 10

/-- What a key that does not end the line does to it. -/
def edit (line : List UInt8) (ch : UInt8) : List UInt8 :=
  if ch = 8 ∨ ch = 0x7f then line.dropLast
  else if ch < 0x20 ∧ ch ≠ 9 ∧ ch ≠ 0x1b then line
  else line ++ [ch]

/-- What a key does to the lines that are finished and the current one. -/
def press (l : List UInt8 × List UInt8) (ch : UInt8) : List UInt8 × List UInt8 :=
  if isEnd ch then (l.1 ++ (l.2 ++ [10]), []) else (l.1, edit l.2 ch)

/-- The finished lines of what was typed, and the unfinished one. -/
def edited (typed : List UInt8) : List UInt8 × List UInt8 := typed.foldl press ([], [])

/-- What has been returned is a beginning of the finished lines, and all of them once nothing is
left in the ring. -/
def Faithful (s : Session) : Prop :=
  s.got <+: (edited s.typed).1 ∧ (s.input = [] → s.got = (edited s.typed).1)

/-- The keys up to the next end of a line. -/
def keys (input : List UInt8) : List UInt8 := input.takeWhile fun ch => !isEnd ch

/-- The line fits into both buffers, and does so all the time while it is edited. -/
def Fits (cap : Nat) (line input : List UInt8) : Prop :=
  (∀ l ∈ (keys input).scanl edit line, l.length ≤ kLineCap) ∧
    (keys input ≠ input → ((keys input).foldl edit line).length < min cap kLineCap)

/-- There is room for what is typed, and for the line that is read. -/
def Roomy (s : Session) : Event → Prop
  | .typed _ => s.input.length < kInputRingSize
  | .read cap => Fits cap s.line s.input

instance (s : Session) : DecidablePred (Roomy s)
  | .typed _ => inferInstanceAs (Decidable (_ < _))
  | .read _ => inferInstanceAs (Decidable (_ ∧ _))

/-! ## A read -/

variable {isig : Bool} {cap : Nat} {ch : UInt8} {line input : List UInt8}

theorem Fits.edit (h : Fits cap line (ch :: input)) (hch : isEnd ch = false) :
    (edit line ch).length ≤ kLineCap ∧ Fits cap (edit line ch) input := by
  rw [Fits, keys, takeWhile_cons_of_pos (by simp [hch]), scanl_cons, forall_mem_cons] at h
  refine ⟨h.1.2 _ ?_, h.1.2, fun hne => h.2 fun heq => hne (cons.inj heq).2⟩
  cases takeWhile (fun ch => !isEnd ch) input <;> simp

theorem canonical_edit (h3 : ch ≠ 3) (hch : isEnd ch = false)
    (hlen : (edit line ch).length ≤ kLineCap) :
    canonical isig cap line (ch :: input) = canonical isig cap (edit line ch) input := by
  rw [canonical, if_neg fun h => h3 h.1, if_neg (by simpa [isEnd] using hch)]
  by_cases hback : ch = 8 ∨ ch = 0x7f
  · rw [edit, if_pos hback]
    cases line with
    | nil => rcases hback with rfl | rfl <;> rfl
    | cons c line => rw [if_pos ⟨hback, Nat.succ_pos _⟩]
  · rw [edit, if_neg hback] at hlen ⊢
    rw [if_neg fun h => hback h.1]
    by_cases hdrop : ch < 0x20 ∧ ch ≠ 9 ∧ ch ≠ 0x1b
    · rw [if_pos hdrop, if_pos ⟨hdrop.2.1, hdrop.2.2, Or.inl hdrop.1⟩]
    · rw [if_neg hdrop, length_append] at hlen
      rw [if_neg hdrop, if_neg (by tauto), if_pos (Nat.lt_of_succ_le hlen)]

theorem canonical_spec (done : List UInt8) {r : Answer × Console} (h3 : 3 ∉ input)
    (hfits : Fits cap line input) (hr : canonical isig cap line input = r) : 3 ∉ r.2.input ∧
      input.foldl press (done, line) = r.2.input.foldl press (done ++ r.1.bytes, r.2.line) := by
  induction input generalizing line with
  | nil =>
    obtain rfl := hr
    exact ⟨h3, by simp [canonical, Answer.bytes]⟩
  | cons ch input ih =>
    rw [mem_cons, not_or] at h3
    rw [foldl_cons, press]
    cases hch : isEnd ch with
    | false =>
      obtain ⟨hlen, hrest⟩ := hfits.edit hch
      rw [canonical_edit (Ne.symm h3.1) hch hlen] at hr
      exact ih h3.2 hrest hr
    | true =>
      have hshort := hfits.2 (by simp [keys, hch])
      rw [keys, takeWhile_cons_of_neg (by simp [hch]), foldl_nil, Nat.lt_min] at hshort
      rw [canonical, if_neg fun h => h3.1 h.1.symm, if_pos (by simpa [isEnd] using hch),
        if_pos hshort.2, take_of_length_le (by simpa using Nat.succ_le_of_lt hshort.1)] at hr
      obtain rfl := hr
      exact ⟨h3.2, rfl⟩

theorem prefix_foldl_press (input : List UInt8) (l : List UInt8 × List UInt8) :
    l.1 <+: (input.foldl press l).1 := by
  induction input generalizing l with
  | nil => exact prefix_rfl
  | cons ch input ih =>
    refine List.IsPrefix.trans ?_ (ih _)
    rw [press]
    split
    · exact prefix_append ..
    · exact prefix_rfl

/-! ## Runs -/

/-- What has been returned, and what the console still holds, is what was typed. -/
structure Inv (s : Session) : Prop where
  plain : 3 ∉ s.input
  typed : edited s.typed = s.input.foldl press (s.got, s.line)

variable {s : Session}

theorem Inv.faithful (h : Inv s) : Faithful s := by
  rw [Faithful, h.typed]
  refine ⟨prefix_foldl_press s.input (s.got, s.line), fun hnil => ?_⟩
  rw [hnil, foldl_nil]

theorem Inv.step (h : Inv s) {e : Event} (hplain : e ≠ .typed 3) (hroomy : Roomy s e) :
    Inv (s.step isig e) := by
  cases e with
  | typed ch =>
    have hpush : s.inputPush ch = { s.toConsole with input := s.input ++ [ch] } := by
      rw [Console.inputPush, if_neg (Nat.not_le.2 hroomy)]
    rw [Session.step, hpush]
    refine ⟨by simpa [h.plain, eq_comm] using hplain, ?_⟩
    dsimp only
    rw [edited, foldl_append, foldl_append, ← h.typed, edited]
  | read cap =>
    obtain ⟨hplain', heq⟩ := canonical_spec s.got h.plain hroomy rfl
    exact ⟨hplain', h.typed.trans heq⟩

/-- **Main theorem.** As long as there is room for what is typed and for the line that is read,
reads return the lines that were typed, whole and in order. -/
theorem returns_lines (isig : Bool) (es : List Event)
    (hplain : EachStep (step isig) (fun _ e => e ≠ .typed 3) {} es)
    (hroomy : EachStep (step isig) Roomy {} es) : Always (step isig) Faithful {} es := by
  have hinv : Inv {} := ⟨by simp, rfl⟩
  have hstep : ∀ s e, Inv s → e ≠ .typed 3 ∧ Roomy s e → Inv (s.step isig e) :=
    fun _ _ h he => h.step he.1 he.2
  exact Always.of_invariant (fun _ h => h.faithful) hstep hinv (hplain.and hroomy)

/-- `h`, a slip of the finger, `i` and return, read in two pieces of time. -/
def hi : List Event := [.typed 104, .typed 111, .read 8, .typed 8, .typed 105, .typed 13, .read 8]

theorem hi_returned : Always (step true) Faithful {} hi := by
  refine returns_lines true hi ?_ ?_
  · refine ⟨?_, ?_, ?_, ?_, ?_, ?_, ?_, trivial⟩ <;> decide
  · refine ⟨?_, ?_, ?_, ?_, ?_, ?_, ?_, trivial⟩ <;> decide

/-- A line of two letters is read one byte at a time: the rest of it is gone. -/
theorem cut_short :
    ¬ Always (step true) Faithful {} [.typed 97, .typed 98, .typed 10, .read 1, .read 1] := by
  intro h
  cases h.last.2 rfl

end Session
end IndexOS.Consoles
