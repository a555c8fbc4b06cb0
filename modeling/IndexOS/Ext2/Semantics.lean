import IndexOS.Ext2.Cache
import IndexOS.Ext2.Read

/-!
# Running the driver

A function of the driver runs in a `World`, behind the block cache and with transfers that may fail
(`World.handle`).  When no transfer fails the cache does not matter, and the function can be thought
of as running on the bare disk.

* `Plain` — a handler that treats the driver's memory as `World.handle` does, and what the driver's
  small steps do with it;
* `readBlock_good` — with transfers that succeed, reading succeeds.
-/

set_option autoImplicit false

namespace IndexOS.Ext2

open Interaction LittleEndian Prog

/-- The block size, checked against the buffer a block goes to or comes from. -/
def fitsBuffer (sb : Super) (b : Scratch) : Bool := decide (sb.blockSize ≤ b.size)

/-- The commands in a world. -/
def World.handle : Handler Cmd Cmd.Ans Stop World
  | .readBlock b dst, w =>
    if fitsBuffer w.mem.sb dst then .done (w.readBlock b dst).1 (w.readBlock b dst).2
    else .stop .fault
  | .writeBlock b src, w =>
    if fitsBuffer w.mem.sb src then
      .done (w.writeBlock b (w.mem.buf src)).1 (w.writeBlock b (w.mem.buf src)).2
    else .stop .fault
  | .readSector n, w =>
    match w.io 0 with
    | .ok => .done (some fun i => w.disk (n * kSector + i)) w.tick
    | .failed _ => .done none w.tick
  | .writeSector n bytes, w =>
    match w.io 0 with
    | .ok => .done true { w.tick with disk := copyInto w.disk (n * kSector) bytes 0 kSector }
    | .failed _ => .done false w.tick
  | .get, w => .done w.mem w
  | .set m, w => .done () { w with mem := m }
  | .stop why, _ => .stop why

/-- Run a function of the driver in a world. -/
abbrev World.run {α : Type} (w : World) (p : Driver α) : Result Stop World α :=
  Prog.run World.handle p w

/-! ## The bare disk -/

/-- The driver's memory and the disk. -/
structure Bare where
  mem : Mem
  disk : Buf

/-- The contents of block `b`. -/
def blockOf (disk : Buf) (bs b : Nat) : Buf := fun i => disk (b * bs + i)

/-- Memory after a block with the bytes `data` has been read into `dst`. -/
def Mem.load (m : Mem) (dst : Scratch) (data : Buf) : Mem :=
  m.setBuf dst (copyInto (m.buf dst) 0 data 0 m.sb.blockSize)

/-! ## Steps that leave the disk alone -/

/-- A handler that treats the driver's memory as `World.handle` does. -/
structure Plain (h : Handler Cmd Cmd.Ans Stop Bare) : Prop where
  get : ∀ s, h .get s = .done s.mem s
  set : ∀ m s, m.sb = s.mem.sb → h (.set m) s = .done () { s with mem := m }
  stop : ∀ why s, h (.stop why) s = .stop why

section Plain

variable {h : Handler Cmd Cmd.Ans Stop Bare} (hp : Plain h) {s : Bare} {b : Scratch} {i n v : Nat}

include hp

theorem run_getMem : getMem.run h s = .done s.mem s :=
  (run_command Cmd.get s).trans (hp.get s)

theorem run_getSb : getSb.run h s = .done s.mem.sb s := run_bind_done (run_getMem hp)

theorem run_setMem {m : Mem} (hm : m.sb = s.mem.sb) :
    (setMem m).run h s = .done () { s with mem := m } :=
  (run_command (Cmd.set m) s).trans (hp.set m s hm)

theorem run_modifyMem {f : Mem → Mem} (hf : (f s.mem).sb = s.mem.sb) :
    (modifyMem f).run h s = .done () { s with mem := f s.mem } :=
  (run_bind_done (run_getMem hp)).trans (run_setMem hp hf)

theorem run_stop {α : Type} (why : Stop) : (stop why : Driver α).run h s = .stop why := by
  rw [stop, run, hp.stop]

omit hp in
theorem run_checkRange (hi : i + n ≤ b.size) : (checkRange b i n).run h s = .done () s := by
  rw [checkRange, if_pos hi, run_pure]

theorem run_checkRange_fault (hi : b.size < i + n) : (checkRange b i n).run h s = .stop .fault := by
  rw [checkRange, if_neg (by omega), run_stop hp]

theorem run_peek (hi : i + 1 ≤ b.size) : (peek b i).run h s = .done (s.mem.buf b i).toNat s :=
  (run_bind_done (run_checkRange hi)).trans (run_bind_done (run_getMem hp))

theorem run_peek_fault (hi : b.size < i + 1) : (peek b i).run h s = .stop .fault :=
  run_bind_stop (run_checkRange_fault hp hi)

theorem run_peek16 (hi : i + 2 ≤ b.size) : (peek16 b i).run h s = .done (rd16 (s.mem.buf b) i) s :=
  (run_bind_done (run_checkRange hi)).trans (run_bind_done (run_getMem hp))

theorem run_peek32 (hi : i + 4 ≤ b.size) : (peek32 b i).run h s = .done (rd32 (s.mem.buf b) i) s :=
  (run_bind_done (run_checkRange hi)).trans (run_bind_done (run_getMem hp))

theorem run_slice (hn : 0 < n) (hi : i + n ≤ b.size) :
    (slice b i n).run h s = .done (fun k => s.mem.buf b (i + k)) s := by
  rw [slice, if_neg (by omega)]
  exact (run_bind_done (run_checkRange hi)).trans (run_bind_done (run_getMem hp))

theorem run_blit {bytes : Buf} (hn : 0 < n) (hi : i + n ≤ b.size) : (blit b i bytes n).run h s =
    .done () { s with mem := s.mem.setBuf b (copyInto (s.mem.buf b) i bytes 0 n) } := by
  rw [blit, if_neg (by omega)]
  exact (run_bind_done (run_checkRange hi)).trans (run_modifyMem hp rfl)

omit hp in
theorem run_udiv {a d : Nat} (hd : 0 < d) : (udiv a d).run h s = .done (a / d) s := by
  rw [udiv, if_neg (by omega), run_pure]

omit hp in
theorem run_umod {a d : Nat} (hd : 0 < d) : (umod a d).run h s = .done (a % d) s := by
  rw [umod, if_neg (by omega), run_pure]

end Plain

/-! ## Transfers that succeed -/

variable {w : World}

theorem fill_whole {b : Nat} {data : Buf} (h : ∀ i, (w.line i).torn = false) (i : Nat) :
    ((w.fill b data).line i).torn = false := by
  rw [World.fill]
  by_cases hi : i = b % kBlkCacheN
  · simp only [hi, Function.update_self]
  · simp only [Function.update_of_ne hi, h i]

theorem fillWindow_whole {block : Nat} {ra : Buf} (n : Nat) : ∀ (k : Nat) (w : World),
    (∀ i, (w.line i).torn = false) → ∀ i, ((World.fillWindow block ra n k w).line i).torn =
    false := by
  induction n with
  | zero => exact fun _ _ h => h
  | succ n ih => exact fun k w h => ih (k + 1) _ (fill_whole h)

/-- With transfers that succeed, `read_block` succeeds, tears no line and leaves the coming
transfers good. -/
theorem readBlock_good (hio : ∀ k, w.io k = .ok) (hwhole : ∀ i, (w.line i).torn = false) (b : Nat)
    (dst : Scratch) : (w.readBlock b dst).1 = true ∧
      (∀ i, ((w.readBlock b dst).2.line i).torn = false) ∧
      ∀ k, (w.readBlock b dst).2.io k = .ok := by
  have hsingle : ∀ v : World, (∀ k, v.io k = .ok) → (∀ i, (v.line i).torn = false) →
      (v.readSingle b dst).1 = true ∧ (∀ i, ((v.readSingle b dst).2.line i).torn = false) ∧
      ∀ k, (v.readSingle b dst).2.io k = .ok := by
    intro v hv hw
    rw [World.readSingle, hv 0]
    exact ⟨rfl, fill_whole hw, fun k => hv (k + 1)⟩
  rw [World.readBlock]
  split
  · exact ⟨rfl, hwhole, hio⟩
  · simp only
    split
    · rw [hio 0]
      refine ⟨rfl, fillWindow_whole _ 0 _ hwhole, fun k => ?_⟩
      obtain ⟨line, hl⟩ := fillWindow_frame b (World.fromBlock { w with raLast := b } b)
        (World.window { w with raLast := b } b) 0 (World.tick { w with raLast := b })
      simp only [hl]
      exact hio (k + 1)
    · exact hsingle _ hio hwhole

/-- Two fillings of the front of a buffer that agree there are equal. -/
theorem copyInto_front {p q q' : Buf} {n : Nat} (h : ∀ k < n, q k = q' k) :
    copyInto p 0 q 0 n = copyInto p 0 q' 0 n := by
  funext j
  by_cases hj : j < n
  · rw [copyInto_zero hj, copyInto_zero hj, h j hj]
  · rw [copyInto_of_not_mem (by omega), copyInto_of_not_mem (by omega)]

end IndexOS.Ext2
