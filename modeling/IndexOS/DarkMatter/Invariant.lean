import IndexOS.DarkMatter.Heap
import Mathlib.Data.List.Nodup

/-!
# The heap invariant

What holds of the arena after any sequence of allocations and frees.  The bridge between the
words of the arena and the algebra of `IndexOS.Lib.Tiling` is `Walk m o cs`: from the header at
`o` on, the headers in `m` spell out exactly the cells `cs`, and these tile the arena to its end.
Every loop of the allocator is then a statement about that list:

* `coalesceFrom_walk` — `coalesce` turns the list `cs` into `merge cs`;
* `allocFrom_spec` — the first-fit loop finds a free block that is large enough, if there is one;
* `takeBlock_walk` — splitting replaces one cell of the list by one or two.

`Inv` adds what connects the list to the client: the occupied cells are its live allocations.
-/

set_option autoImplicit false

namespace IndexOS.DarkMatter

open Tiling

/-- From the header at `o` on, the arena `m` consists of exactly the blocks `cs`. -/
structure Walk (m : Nat → Nat) (o : Nat) (cs : List Cell) : Prop where
  /-- The blocks cover everything up to the end of the arena. -/
  tiles : Tiles sizeofBlock o cs kArenaSize
  /-- There is at least one block. -/
  lt : o < kArenaSize
  /-- The headers in the arena say so. -/
  mem : ∀ c ∈ cs, cellAt m c.off = c

variable {m m' : Nat → Nat} {o size fuel : Nat} {c : Cell} {cs : List Cell} {pre post : List Cell}

/-! ## Following the headers -/

theorem Walk.ne_nil (h : Walk m o cs) : cs ≠ [] := by
  rintro rfl
  have h1 : o = kArenaSize := h.tiles
  have h2 := h.lt
  omega

theorem Walk.length_le (h : Walk m o cs) : cs.length ≤ kMaxBlocks := by
  have := h.tiles.length_mul_le
  rw [kMaxBlocks, sizeofBlock] at *
  omega

section
variable (h : Walk m o (c :: cs))
include h

theorem Walk.cellAt_head : cellAt m o = c := by
  have := h.mem c (by simp)
  rwa [h.tiles.1] at this

theorem Walk.off_head : c.off = o := h.tiles.1

theorem Walk.sizeAt_head : sizeAt m o = c.size := by
  rw [← h.cellAt_head, cellAt]

theorem Walk.freeAt_head : freeAt m o = c.free := by
  rw [← h.cellAt_head, cellAt]

end

theorem Walk.nextBlock_nil (h : Walk m o [c]) : nextBlock m o = none := by
  have h1 : o + sizeofBlock + c.size = kArenaSize := h.tiles.2
  rw [nextBlock, h.sizeAt_head, if_pos (by omega)]

theorem Walk.tail {d : Cell} (h : Walk m o (c :: d :: cs)) :
    Walk m (o + sizeofBlock + c.size) (d :: cs) := by
  refine ⟨h.tiles.2, ?_, fun x hx => h.mem x (List.mem_cons_of_mem _ hx)⟩
  have := (h.tiles.2.bounds (List.mem_cons_self : d ∈ d :: cs))
  rw [sizeofBlock] at *
  omega

theorem Walk.nextBlock_cons {d : Cell} (h : Walk m o (c :: d :: cs)) :
    nextBlock m o = some (o + sizeofBlock + c.size) := by
  have := h.tail.lt
  rw [nextBlock, h.sizeAt_head, if_neg (by omega)]

/-- `Walk` only depends on the headers. -/
theorem Walk.congr (h : Walk m o cs) (hm : ∀ c ∈ cs, cellAt m' c.off = cellAt m c.off) :
    Walk m' o cs :=
  ⟨h.tiles, h.lt, fun c hc => (hm c hc).trans (h.mem c hc)⟩

/-- Putting a header in front of a walk. -/
theorem Walk.cons (hc : cellAt m o = c) (h : Walk m (o + sizeofBlock + c.size) cs) :
    Walk m o (c :: cs) := by
  have hoff : c.off = o := by rw [← hc, cellAt]
  refine ⟨⟨hoff, h.tiles⟩, by have := h.lt; omega, fun d hd => ?_⟩
  rcases List.mem_cons.1 hd with rfl | hd
  · rw [hoff, hc]
  · exact h.mem d hd

theorem blocksFrom_eq : ∀ (fuel : Nat) {o : Nat} {cs : List Cell}, Walk m o cs →
    cs.length ≤ fuel → blocksFrom fuel m o = cs
  | 0, _, cs, h, hl => by
    have := h.ne_nil
    simp_all
  | _ + 1, _, [], h, _ => absurd rfl h.ne_nil
  | _ + 1, _, [c], h, _ => by rw [blocksFrom, h.nextBlock_nil, h.cellAt_head]
  | fuel + 1, _, c :: d :: cs, h, hl => by
    rw [blocksFrom, h.nextBlock_cons, h.cellAt_head]
    simp only [List.cons.injEq, true_and]
    exact blocksFrom_eq fuel h.tail (by simpa using hl)

/-! ## `coalesce` -/

theorem cellAt_store_ne {a v b : Nat} (h1 : b ≠ a) (h2 : b + 8 ≠ a) :
    cellAt (store m a v) b = cellAt m b := by
  simp [cellAt, sizeAt, freeAt, store, h1, h2]

/-- The inner loop swallows the run of free blocks behind a free block and nothing else. -/
theorem coalesceRun_walk : ∀ (fuel : Nat) {m : Nat → Nat} {c : Cell} {cs : List Cell},
    Walk m o (c :: cs) → c.free = true → cs.length ≤ fuel →
    ∃ c' cs', Walk (coalesceRun fuel m o) o (c' :: cs') ∧
      merge sizeofBlock (c :: cs) = merge sizeofBlock (c' :: cs') ∧
      (∀ d ∈ cs'.head?, d.free = false) ∧ cs'.length ≤ cs.length ∧
      ∀ a, a ≠ o → coalesceRun fuel m o a = m a
  | 0, m, c, cs, h, _, hl => by
    have : cs = [] := by simpa using hl
    subst this
    exact ⟨c, [], h, rfl, by simp, le_rfl, fun _ _ => rfl⟩
  | fuel + 1, m, c, [], h, _, _ => by
    refine ⟨c, [], ?_, rfl, by simp, le_rfl, ?_⟩ <;> simp [coalesceRun, h.nextBlock_nil, h]
  | fuel + 1, m, c, d :: cs, h, hc, hl => by
    have hd := h.tail
    by_cases hdf : d.free = true
    · -- the neighbour is free: one turn of the loop is one step of `merge`
      have hb := h.tiles.bounds (List.mem_cons_of_mem c (List.mem_cons_self : d ∈ d :: cs))
      have hoff := hd.off_head
      have hsum : add64 c.size (add64 sizeofBlock d.size) = c.size + sizeofBlock + d.size := by
        rw [add64, add64, kArenaSize] at *
        rw [Nat.mod_eq_of_lt (by omega)]
        omega
      have hstep : coalesceRun (fuel + 1) m o =
          coalesceRun fuel (store m o (c.size + sizeofBlock + d.size)) o := by
        rw [coalesceRun, h.nextBlock_cons]
        simp only [hd.freeAt_head, hdf, if_true, hd.sizeAt_head, h.sizeAt_head, hsum]
      have hw : Walk (store m o (c.size + sizeofBlock + d.size)) o
          (⟨c.off, c.size + sizeofBlock + d.size, true⟩ :: cs) := by
        refine ⟨⟨h.off_head, ?_⟩, h.lt, fun x hx => ?_⟩
        · have := hd.tiles.2
          rwa [show o + sizeofBlock + (c.size + sizeofBlock + d.size) =
            o + sizeofBlock + c.size + sizeofBlock + d.size by omega]
        · rcases List.mem_cons.1 hx with rfl | hx
          · have := h.freeAt_head
            rw [hc, freeAt] at this
            simp [cellAt, sizeAt, freeAt, store, h.off_head, this]
          · have hxb := (hd.tiles.2.bounds hx).1
            rw [cellAt_store_ne (by rw [sizeofBlock] at *; omega) (by omega)]
            exact h.mem x (by simp [hx])
      obtain ⟨c', cs', hw', hm', hh', hl', hf'⟩ :=
        coalesceRun_walk fuel hw rfl (by simpa using hl)
      refine ⟨c', cs', by rw [hstep]; exact hw', ?_, hh', ?_, fun a ha => ?_⟩
      · rw [merge_cons_cons_of_free hc hdf, hm']
      · rw [List.length_cons]; omega
      · rw [hstep, hf' a ha, store, if_neg ha]
    · -- the neighbour is allocated: the loop stops
      have hstep : coalesceRun (fuel + 1) m o = m := by
        rw [coalesceRun, h.nextBlock_cons]
        simp [hd.freeAt_head, hdf]
      rw [hstep]
      exact ⟨c, d :: cs, h, rfl, by simpa using hdf, le_rfl, fun _ _ => rfl⟩

/-- `coalesce` computes `merge`, and touches nothing before the block it starts from. -/
theorem coalesceFrom_walk : ∀ (fuel : Nat) {m : Nat → Nat} {o : Nat} {cs : List Cell},
    Walk m o cs → cs.length ≤ fuel →
    Walk (coalesceFrom fuel m o) o (merge sizeofBlock cs) ∧
      ∀ a, a < o → coalesceFrom fuel m o a = m a
  | 0, _, _, cs, h, hl => by
    have := h.ne_nil
    simp_all
  | _ + 1, _, _, [], h, _ => absurd rfl h.ne_nil
  | fuel + 1, m, o, c :: cs, h, hl => by
    -- whether or not `b` is free, the inner loop leaves a head that `merge` keeps
    have key : ∃ c' cs', Walk (if freeAt m o then coalesceRun kMaxBlocks m o else m) o (c' :: cs') ∧
        merge sizeofBlock (c :: cs) = c' :: merge sizeofBlock cs' ∧ cs'.length ≤ cs.length ∧
        ∀ a, a < o → (if freeAt m o then coalesceRun kMaxBlocks m o else m) a = m a := by
      by_cases hc : c.free = true
      · have hlen := h.length_le
        obtain ⟨c', cs', hw, hm, hh, hl', hf⟩ := coalesceRun_walk kMaxBlocks h hc
          (by rw [List.length_cons] at hlen; omega)
        refine ⟨c', cs', ?_, ?_, hl', fun a ha => ?_⟩
        · rwa [h.freeAt_head, hc]
        · rw [hm, merge_cons_of_head hh]
        · rw [h.freeAt_head, hc, if_pos rfl, hf a (by omega)]
      · rw [h.freeAt_head, if_neg hc]
        exact ⟨c, cs, h, merge_cons_of_not_free (by simpa using hc), le_rfl, fun _ _ => rfl⟩
    obtain ⟨c', cs', hw, hm, hl', hf⟩ := key
    rw [coalesceFrom, hm]
    generalize (if freeAt m o then coalesceRun kMaxBlocks m o else m) = m₁ at hw hf
    cases cs' with
    | nil =>
      rw [hw.nextBlock_nil]
      simp only [merge]
      exact ⟨hw, hf⟩
    | cons d ds =>
      simp only [hw.nextBlock_cons]
      obtain ⟨ih, ihf⟩ := coalesceFrom_walk fuel hw.tail
        (by simp only [List.length_cons] at *; omega)
      refine ⟨Walk.cons ?_ ih, fun a ha => ?_⟩
      · rw [cellAt, sizeAt, freeAt, ihf o (by rw [sizeofBlock]; omega),
          ihf (o + 8) (by rw [sizeofBlock]; omega)]
        exact hw.cellAt_head
      · rw [ihf a (by omega), hf a ha]

theorem coalesce_walk (h : Walk m 0 cs) : Walk (coalesce m) 0 (merge sizeofBlock cs) :=
  (coalesceFrom_walk kMaxBlocks h h.length_le).1

/-! ## `dark_matter_alloc` -/

theorem alignUp_sixteen {size : Nat} (h : size ≤ 2 ^ 64 - 16) :
    alignUp size 16 = (size + 15) / 16 * 16 := by
  rw [alignUp, show size + 16 - 1 = size + 15 by omega, Nat.mod_eq_of_lt (by omega)]
  generalize hx : size + 15 = x
  have hlt : x < 2 ^ 64 := by omega
  apply Nat.eq_of_testBit_eq
  intro i
  have hmask : (2 ^ 64 - 1) ^^^ (16 - 1) = (2 ^ 60 - 1) * 2 ^ 4 := by decide
  rw [hmask, Nat.testBit_and, Nat.testBit_mul_two_pow, Nat.testBit_two_pow_sub_one,
    show x / 16 * 16 = x / 2 ^ 4 * 2 ^ 4 from rfl, Nat.testBit_mul_two_pow, Nat.testBit_div_two_pow]
  by_cases hi : 4 ≤ i
  · rw [show i - 4 + 4 = i by omega]
    by_cases h60 : i - 4 < 60
    · simp [hi, h60]
    · have : x.testBit i = false :=
        Nat.testBit_lt_two_pow (lt_of_lt_of_le hlt (Nat.pow_le_pow_right (by omega) (by omega)))
      simp [this]
  · simp [hi]

/-- First fit: the loop gives up only when no free block is large enough. -/
theorem allocFrom_spec (size : Nat) : ∀ (fuel : Nat) {o : Nat} {cs : List Cell}, Walk m o cs →
    cs.length ≤ fuel →
    (allocFrom size fuel m o = (none, m) ∧ ∀ c ∈ cs, c.free = true → c.size < size) ∨
    ∃ pre c post, cs = pre ++ c :: post ∧ c.free = true ∧ size ≤ c.size ∧
      allocFrom size fuel m o = (some (c.off + sizeofBlock), takeBlock m size c.off)
  | 0, _, cs, h, hl => by
    have := h.ne_nil
    simp_all
  | _ + 1, _, [], h, _ => absurd rfl h.ne_nil
  | fuel + 1, o, c :: cs, h, hl => by
    by_cases hfit : c.free = true ∧ size ≤ c.size
    · refine Or.inr ⟨[], c, cs, rfl, hfit.1, hfit.2, ?_⟩
      rw [allocFrom, h.freeAt_head, h.sizeAt_head, if_neg (by simp [hfit.1, hfit.2]), h.off_head]
    · have hskip : (!freeAt m o || decide (sizeAt m o < size)) = true := by
        rw [h.freeAt_head, h.sizeAt_head]
        by_cases hc : c.free = true
        · simpa [hc] using hfit
        · simp [hc]
      have hc : c.free = true → c.size < size := fun hf => by
        by_contra hlt
        exact hfit ⟨hf, by omega⟩
      cases cs with
      | nil =>
        refine Or.inl ⟨?_, by simpa using hc⟩
        rw [allocFrom, if_pos hskip, h.nextBlock_nil]
      | cons d ds =>
        have hstep : allocFrom size (fuel + 1) m o =
            allocFrom size fuel m (o + sizeofBlock + c.size) := by
          rw [allocFrom, if_pos hskip, h.nextBlock_cons]
        rw [hstep]
        rcases allocFrom_spec size fuel h.tail (by simpa using hl) with
          ⟨he, hall⟩ | ⟨pre, x, post, hcs, hx, hs, he⟩
        · refine Or.inl ⟨he, fun x hx => ?_⟩
          rcases List.mem_cons.1 hx with rfl | hx
          · exact hc
          · exact hall x hx
        · exact Or.inr ⟨c :: pre, x, post, by rw [hcs, List.cons_append], hx, hs, he⟩

/-- What `takeBlock` leaves of a free block: the allocated part, and a free remainder if it is
worth splitting off. -/
def takeCells (size : Nat) (c : Cell) : List Cell :=
  if size + sizeofBlock + 16 ≤ c.size then
    [⟨c.off, size, false⟩, ⟨c.off + sizeofBlock + size, c.size - size - sizeofBlock, true⟩]
  else [⟨c.off, c.size, false⟩]

theorem Walk.replace {pre mid post : List Cell} (h : Walk m o (pre ++ c :: post))
    (hmid : Tiles sizeofBlock c.off mid (c.off + sizeofBlock + c.size))
    (hmem : ∀ x ∈ mid, cellAt m' x.off = x)
    (hrest : ∀ b, (b + sizeofBlock ≤ c.off ∨ c.off + sizeofBlock + c.size ≤ b) →
      cellAt m' b = cellAt m b) :
    Walk m' o (pre ++ (mid ++ post)) := by
  obtain ⟨b, h1, h2⟩ := h.tiles.split
  have hb : c.off = b := h2.1
  have hpair := List.pairwise_append.1 h.tiles.pairwise
  refine ⟨h1.append (hb ▸ hmid.append (by rw [hb]; exact h2.2)), h.lt, fun x hx => ?_⟩
  rw [List.mem_append, List.mem_append] at hx
  rcases hx with hx | hx | hx
  · have := hpair.2.2 x hx c (by simp)
    rw [hrest x.off (Or.inl (by omega))]
    exact h.mem x (by simp [hx])
  · exact hmem x hx
  · have := (List.pairwise_cons.1 hpair.2.1).1 x hx
    rw [hrest x.off (Or.inr this)]
    exact h.mem x (by simp [hx])

theorem takeBlock_walk (h : Walk m 0 (pre ++ c :: post))
    (hsize : size ≤ c.size) :
    Walk (takeBlock m size c.off) 0 (pre ++ (takeCells size c ++ post)) := by
  have hb := h.tiles.bounds (show c ∈ pre ++ c :: post by simp)
  have hsz : sizeAt m c.off = c.size := by rw [← h.mem c (by simp)]; rfl
  have hadd : add64 size (sizeofBlock + 16) = size + sizeofBlock + 16 := by
    rw [add64, Nat.mod_eq_of_lt (by rw [kArenaSize] at *; omega)]
    omega
  by_cases hsplit : size + sizeofBlock + 16 ≤ c.size
  · have hsub : sub64 (sub64 c.size size) sizeofBlock = c.size - size - sizeofBlock := by
      rw [sub64, sub64, kArenaSize] at *
      omega
    have hm : takeBlock m size c.off = store (store (store (store m
        (c.off + sizeofBlock + size) (c.size - size - sizeofBlock))
        (c.off + sizeofBlock + size + 8) 1) c.off size) (c.off + 8) 0 := by
      rw [takeBlock, hsz, hadd, if_pos hsplit, hsub]
    rw [hm, takeCells, if_pos hsplit]
    refine h.replace ⟨rfl, ⟨rfl, ?_⟩⟩ ?_ ?_
    · simp only [Tiles] at *
      omega
    · intro x hx
      simp only [List.mem_cons, List.not_mem_nil, or_false] at hx
      rcases hx with rfl | rfl
      · simp [cellAt, sizeAt, freeAt, store]
      · have h1 : c.off + 16 + size ≠ c.off + 8 := by omega
        have h2 : c.off + 16 + size ≠ c.off := by omega
        have h4 : c.off + 16 + size + 8 ≠ c.off := by omega
        simp [cellAt, sizeAt, freeAt, store, sizeofBlock, h1, h2, h4]
    · intro b hb
      rw [cellAt_store_ne, cellAt_store_ne, cellAt_store_ne, cellAt_store_ne] <;>
        rw [sizeofBlock] at * <;> omega
  · have hm : takeBlock m size c.off = store m (c.off + 8) 0 := by
      rw [takeBlock, hsz, hadd, if_neg hsplit]
    rw [hm, takeCells, if_neg hsplit]
    refine h.replace ⟨rfl, rfl⟩ ?_ ?_
    · intro x hx
      rw [List.mem_singleton] at hx
      subst hx
      simp only [cellAt, sizeAt, freeAt, store] at *
      simp [hsz]
    · intro b hb
      rw [cellAt_store_ne] <;> rw [sizeofBlock] at * <;> omega

/-! ## The invariant -/

/-- The heap invariant: the arena is tiled by blocks of 16-byte granularity, free neighbours are
always merged, and the allocated blocks are the client's live allocations. -/
structure Inv (h : Heap) (live : List (Nat × Nat)) (cs : List Cell) : Prop where
  /-- The heap is initialised. -/
  ready : h.ready = true
  /-- The headers in the arena spell out `cs`. -/
  walk : Walk h.mem 0 cs
  /-- Payloads come in multiples of 16 bytes. -/
  gran : ∀ c ∈ cs, c.size % 16 = 0
  /-- No two neighbours are both free. -/
  noAdj : NoAdjFree cs
  /-- The allocated blocks are the live allocations. -/
  perm : (live.map Prod.fst).Perm ((used cs).map fun c => c.off + sizeofBlock)
  /-- Each is as long as requested. -/
  long : ∀ x ∈ live, ∀ c ∈ used cs, c.off + sizeofBlock = x.1 → x.2 ≤ c.size
  /-- Nothing of length 0 is ever handed out. -/
  pos : ∀ x ∈ live, 0 < x.2

variable {h : Heap} {live : List (Nat × Nat)} {x : Nat × Nat}

theorem used_append (l l' : List Cell) : used (l ++ l') = used l ++ used l' := List.filter_append ..

theorem used_of_free {c : Cell} (hc : c.free = true) (l : List Cell) : used (c :: l) = used l := by
  simp [used, hc]

theorem used_of_not_free {c : Cell} (hc : c.free = false) (l : List Cell) :
    used (c :: l) = c :: used l := by
  simp [used, hc]

theorem mem_used {c : Cell} {cs : List Cell} : c ∈ used cs ↔ c ∈ cs ∧ c.free = false := by
  simp [used]

theorem Inv.blocks_eq (hi : Inv h live cs) : blocks h = cs :=
  blocksFrom_eq _ hi.walk hi.walk.length_le

/-- The allocated block behind a live pointer. -/
theorem Inv.block_of_live (hi : Inv h live cs) (hx : x ∈ live) :
    ∃ c ∈ cs, c.free = false ∧ c.off + sizeofBlock = x.1 ∧ x.2 ≤ c.size := by
  have h1 : x.1 ∈ (used cs).map fun c => c.off + sizeofBlock :=
    hi.perm.subset (List.mem_map_of_mem hx)
  obtain ⟨c, hc, hcx⟩ := List.mem_map.1 h1
  exact ⟨c, (mem_used.1 hc).1, (mem_used.1 hc).2, hcx, hi.long x hx c hc hcx⟩

theorem inv_init (h : Heap) :
    Inv (darkMatterInit h) [] [⟨0, kArenaSize - sizeofBlock, true⟩] := by
  refine ⟨rfl, ⟨⟨rfl, ?_⟩, by decide, ?_⟩, ?_, List.IsChain.singleton _, ?_, by simp, by simp⟩
  · simp only [Tiles]; decide
  · intro c hc
    rw [List.mem_singleton] at hc
    subst hc
    simp [cellAt, sizeAt, freeAt, darkMatterInit, store, firstBlock]
  · intro c hc
    rw [List.mem_singleton] at hc
    subst hc
    decide
  · simp [used]

theorem takeCells_used (size : Nat) (c : Cell) :
    ∃ n, size ≤ c.size → size ≤ n ∧ used (takeCells size c) = [⟨c.off, n, false⟩] := by
  by_cases hsplit : size + sizeofBlock + 16 ≤ c.size
  · exact ⟨size, fun _ => ⟨le_rfl, by simp [takeCells, hsplit, used]⟩⟩
  · exact ⟨c.size, fun h => ⟨h, by simp [takeCells, hsplit, used]⟩⟩

/-- Taking a free block large enough for the rounded-up size makes it a live allocation. -/
theorem Inv.take {req : Nat} (hi : Inv h live (pre ++ c :: post))
    (hfree : c.free = true) (hsize : size ≤ c.size) (h16 : size % 16 = 0) (hreq : req ≤ size)
    (hpos : 0 < req) (n : Nat) :
    Inv { h with mem := takeBlock h.mem size c.off, allocations := n }
      ((c.off + sizeofBlock, req) :: live) (pre ++ (takeCells size c ++ post)) := by
  obtain ⟨len, hlen⟩ := takeCells_used size c
  obtain ⟨hle, hused⟩ := hlen hsize
  have hc16 := hi.gran c (by simp)
  have hold : used (pre ++ c :: post) = used pre ++ used post := by
    rw [used_append, used_of_free hfree]
  have hnew : used (pre ++ (takeCells size c ++ post)) =
      used pre ++ ⟨c.off, len, false⟩ :: used post := by
    rw [used_append, used_append, hused, List.singleton_append]
  refine ⟨hi.ready, takeBlock_walk hi.walk hsize, ?_, ?_, ?_, ?_, ?_⟩
  · intro x hx
    rw [List.mem_append, List.mem_append] at hx
    rcases hx with hx | hx | hx
    · exact hi.gran x (by simp [hx])
    · rw [takeCells] at hx
      split at hx
      · simp only [List.mem_cons, List.not_mem_nil, or_false] at hx
        rcases hx with rfl | rfl <;> simp only [sizeofBlock] at * <;> omega
      · rw [List.mem_singleton] at hx
        subst hx
        exact hc16
    · exact hi.gran x (by simp [hx])
  · rw [takeCells]
    split
    · exact hi.noAdj.occupy hfree rfl [_] (List.IsChain.singleton _)
    · exact hi.noAdj.occupy hfree rfl [] List.IsChain.nil
  · rw [hnew, List.map_append, List.map_cons]
    refine List.Perm.trans (List.Perm.cons _ ?_) List.perm_middle.symm
    rw [← List.map_append, ← hold]
    exact hi.perm
  · intro x hx d hd hdx
    rw [hnew, List.mem_append, List.mem_cons] at hd
    have hd' : d = ⟨c.off, len, false⟩ ∨ d ∈ used (pre ++ c :: post) := by
      rw [hold, List.mem_append]
      tauto
    rcases List.mem_cons.1 hx with rfl | hx
    · rcases hd' with rfl | hd'
      · exact hreq.trans hle
      · -- an allocated block cannot share its address with the free block `c`
        have hoff : d = c := hi.walk.tiles.off_inj (by decide) (mem_used.1 hd').1 (by simp)
          (by omega)
        rw [hoff, mem_used, hfree] at hd'
        simp at hd'
    · rcases hd' with rfl | hd'
      · obtain ⟨b, hb, hbf, hbx, -⟩ := hi.block_of_live hx
        have hoff : b = c := hi.walk.tiles.off_inj (by decide) hb (by simp)
          (by simp only at hdx; omega)
        rw [hoff, hfree] at hbf
        simp at hbf
      · exact hi.long x hx d hd' hdx
  · intro x hx
    rcases List.mem_cons.1 hx with rfl | hx
    · exact hpos
    · exact hi.pos x hx

/-- `dark_matter_alloc` fails exactly when it must, and otherwise hands out a free block. -/
theorem Inv.alloc (hi : Inv h live cs) {req : Nat} (hreq : req ≤ 2 ^ 64 - 16) :
    ((darkMatterAlloc h req).1 = none ∧ (darkMatterAlloc h req).2 = h ∧
        (req = 0 ∨ ∀ c ∈ cs, c.free = true → c.size < alignUp req 16)) ∨
      (req ≠ 0 ∧ ∃ c ∈ cs, c.free = true ∧ alignUp req 16 ≤ c.size ∧
        (darkMatterAlloc h req).1 = some (c.off + sizeofBlock) ∧
        ∃ cs', Inv (darkMatterAlloc h req).2 ((c.off + sizeofBlock, req) :: live) cs') := by
  by_cases h0 : req = 0
  · simp [darkMatterAlloc, h0]
  · have hcond : (!h.ready || req == 0) = false := by simp [hi.ready, h0]
    rcases allocFrom_spec (alignUp req 16) kMaxBlocks hi.walk hi.walk.length_le with
      ⟨he, hall⟩ | ⟨pre, c, post, rfl, hfree, hsz, he⟩
    · left
      simp only [darkMatterAlloc, hcond, firstBlock, he]
      exact ⟨rfl, rfl, Or.inr hall⟩
    · right
      refine ⟨h0, c, by simp, hfree, hsz, ?_, pre ++ (takeCells (alignUp req 16) c ++ post), ?_⟩
      · simp [darkMatterAlloc, hcond, firstBlock, he]
      · have h16 := alignUp_sixteen hreq
        have := hi.take hfree hsz (by omega) (show req ≤ alignUp req 16 by omega)
          (by omega) (add64 h.allocations 1)
        simpa [darkMatterAlloc, hcond, firstBlock, he] using this

/-- Freeing a live pointer takes it off the list of allocated blocks. -/
theorem Inv.free (hi : Inv h live cs) (hx : x ∈ live) :
    ∃ cs', Inv (darkMatterFree h (some x.1)) (live.erase x) cs' := by
  obtain ⟨c, hc, hcf, hcx, hlen⟩ := hi.block_of_live hx
  have hb := hi.walk.tiles.bounds hc
  have hpos := hi.pos x hx
  obtain ⟨pre, post, rfl⟩ := List.append_of_mem hc
  have hrange : (!h.ready || decide (x.1 < sizeofBlock) || decide (x.1 ≥ kArenaSize)) = false := by
    have h1 : sizeofBlock ≤ x.1 := by omega
    have h2 : x.1 < kArenaSize := by omega
    simp [hi.ready, h1, h2]
  -- the header is marked free, and the list merged
  have hw : Walk (store h.mem (c.off + 8) 1) 0 (pre ++ ([⟨c.off, c.size, true⟩] ++ post)) := by
    refine hi.walk.replace ⟨rfl, rfl⟩ ?_ ?_
    · intro y hy
      rw [List.mem_singleton] at hy
      subst hy
      have hsz : sizeAt h.mem c.off = c.size := by rw [← hi.walk.mem c (by simp)]; rfl
      rw [sizeAt] at hsz
      simp [cellAt, sizeAt, freeAt, store, hsz]
    · intro b hb
      rw [cellAt_store_ne] <;> rw [sizeofBlock] at * <;> omega
  have hfree : darkMatterFree h (some x.1) = { h with
      mem := coalesce (store h.mem (x.1 - sizeofBlock + 8) 1)
      frees := add64 h.frees 1 } := by
    simp only [darkMatterFree]
    rw [if_neg (by rw [hrange]; simp)]
  have hmem : (darkMatterFree h (some x.1)).mem = coalesce (store h.mem (c.off + 8) 1) := by
    rw [hfree, ← hcx, Nat.add_sub_cancel]
  have hready : (darkMatterFree h (some x.1)).ready = true := by
    rw [hfree]
    exact hi.ready
  have hold : used (pre ++ c :: post) = used pre ++ c :: used post := by
    rw [used_append, used_of_not_free hcf]
  have hnew : used (merge sizeofBlock (pre ++ ([⟨c.off, c.size, true⟩] ++ post))) =
      used pre ++ used post := by
    rw [used_merge, used_append, List.singleton_append, used_of_free rfl]
  refine ⟨merge sizeofBlock (pre ++ ([⟨c.off, c.size, true⟩] ++ post)), hready, ?_, ?_,
    noAdjFree_merge, ?_, ?_, fun y hy => hi.pos y (List.mem_of_mem_erase hy)⟩
  · rw [hmem]
    exact coalesce_walk hw
  · refine forall_size_merge (p := fun n => n % 16 = 0)
      (fun a b ha hb => by rw [sizeofBlock]; omega) fun y hy => ?_
    simp only [List.mem_append, List.mem_singleton] at hy
    rcases hy with hy | rfl | hy
    · exact hi.gran y (by simp [hy])
    · exact hi.gran c (by simp)
    · exact hi.gran y (by simp [hy])
  · -- cancel the freed pointer on both sides of the permutation
    have hp := hi.perm
    rw [hold, List.map_append, List.map_cons] at hp
    have h1 := (((List.perm_cons_erase hx).map Prod.fst).symm.trans hp).trans List.perm_middle
    rw [hcx] at h1
    rw [hnew, List.map_append]
    exact h1.cons_inv
  · intro y hy d hd hdy
    rw [hnew, List.mem_append] at hd
    refine hi.long y (List.mem_of_mem_erase hy) d ?_ hdy
    rw [hold, List.mem_append]
    tauto

/-- Stores into live payloads never reach a header. -/
theorem Inv.scribble (hi : Inv h live cs) {m : Nat → Nat}
    (hm : ∀ a, ¬ InPayload live a → m a = h.mem a) : Inv { h with mem := m } live cs := by
  -- a payload starts behind its own header and ends before the next one
  have hhdr : ∀ d ∈ cs, ∀ a, d.off ≤ a → a < d.off + sizeofBlock → ¬ InPayload live a := by
    rintro d hd a hda had ⟨x, hx, hxa, hax⟩
    obtain ⟨c, hc, -, hcx, hlen⟩ := hi.block_of_live hx
    by_cases hdc : d = c
    · subst hdc; omega
    · have := hi.walk.tiles.disjoint hd hc hdc
      omega
  refine ⟨hi.ready, hi.walk.congr fun c hc => ?_, hi.gran, hi.noAdj, hi.perm, hi.long, hi.pos⟩
  simp only [cellAt, sizeAt, freeAt]
  rw [hm c.off (hhdr c hc _ le_rfl (by rw [sizeofBlock]; omega)),
    hm (c.off + 8) (hhdr c hc _ (by omega) (by rw [sizeofBlock]; omega))]

/-- Every state a client can reach satisfies the invariant. -/
theorem Reachable.inv (hr : Reachable h live) : ∃ cs, Inv h live cs := by
  induction hr with
  | init h => exact ⟨_, inv_init h⟩
  | @alloc h live size p _ hsize hp ih =>
    obtain ⟨cs, hi⟩ := ih
    rcases hi.alloc hsize with ⟨hnone, -⟩ | ⟨-, c, -, -, -, hsome, cs', hi'⟩
    · rw [hnone] at hp; cases hp
    · rw [hsome, Option.some_inj] at hp
      exact ⟨cs', hp ▸ hi'⟩
  | @allocNull h live size _ hsize hp ih =>
    obtain ⟨cs, hi⟩ := ih
    rcases hi.alloc hsize with ⟨-, heq, -⟩ | ⟨-, c, -, -, -, hsome, -⟩
    · exact ⟨cs, heq.symm ▸ hi⟩
    · rw [hsome] at hp; cases hp
  | free _ hx ih =>
    obtain ⟨cs, hi⟩ := ih
    exact hi.free hx
  | scribble _ hm ih =>
    obtain ⟨cs, hi⟩ := ih
    exact ⟨cs, hi.scribble hm⟩

/-! ## What a client may rely on -/

/-- The length of the payload behind a pointer, as its header has it. -/
def payloadSize (h : Heap) (p : Nat) : Nat := sizeAt h.mem (p - sizeofBlock)

theorem Inv.payload (hi : Inv h live cs) (hx : x ∈ live) :
    ∃ c ∈ cs, c.off + sizeofBlock = x.1 ∧ x.2 ≤ c.size ∧ payloadSize h x.1 = c.size := by
  obtain ⟨c, hc, -, hcx, hlen⟩ := hi.block_of_live hx
  refine ⟨c, hc, hcx, hlen, ?_⟩
  rw [← hcx, ← hi.walk.mem c hc]
  rfl

/-- Two live allocations never overlap. -/
theorem Inv.disjoint (hi : Inv h live cs) :
    live.Pairwise fun x y => x.1 + payloadSize h x.1 ≤ y.1 ∨ y.1 + payloadSize h y.1 ≤ x.1 := by
  have hnodup : (live.map Prod.fst).Nodup := by
    rw [hi.perm.nodup_iff]
    refine List.Nodup.map_on (fun a ha b hb hab => ?_) ?_
    · exact hi.walk.tiles.off_inj (by decide) (mem_used.1 ha).1 (mem_used.1 hb).1 (by omega)
    · refine List.Nodup.filter _ (hi.walk.tiles.pairwise.imp fun {a b} hab => ?_)
      rintro rfl
      rw [sizeofBlock] at hab
      omega
  have hne : live.Pairwise fun x y => x.1 ≠ y.1 := List.pairwise_map.1 hnodup
  refine hne.imp_of_mem fun {x y} hx hy hxy => ?_
  obtain ⟨c, hc, hcx, -, hcs⟩ := hi.payload hx
  obtain ⟨d, hd, hdy, -, hds⟩ := hi.payload hy
  have := hi.walk.tiles.disjoint hc hd (by rintro rfl; omega)
  omega

/-- Freeing what is live, in any order, leads back to the heap of `dark_matter_init`. -/
theorem Reachable.free_all : ∀ (order : List Nat) {h : Heap} {live : List (Nat × Nat)},
    Reachable h live → order.Perm (live.map Prod.fst) →
    blocks (order.foldl (fun h p => darkMatterFree h (some p)) h) =
      [⟨0, kArenaSize - sizeofBlock, true⟩]
  | [], h, live, hr, hp => by
    have : live = [] := by simpa using hp.symm
    subst this
    obtain ⟨cs, hi⟩ := hr.inv
    have hu : used cs = [] := by simpa using hi.perm.symm
    rw [List.foldl_nil, hi.blocks_eq]
    exact eq_single_of_used_nil hi.walk.tiles hi.walk.lt hi.noAdj hu
  | p :: order, h, live, hr, hp => by
    have hmem : p ∈ live.map Prod.fst := hp.subset (by simp)
    obtain ⟨x, hx, rfl⟩ := List.mem_map.1 hmem
    refine Reachable.free_all order (hr.free hx) ?_
    exact (hp.trans ((List.perm_cons_erase hx).map Prod.fst)).cons_inv

/-- **The kernel heap invariant.**  In every state a client can reach the blocks tile the arena
exactly, in multiples of 16 bytes and with no two free neighbours; live payloads are disjoint,
inside the arena and long enough; an allocation fails exactly when it must; and giving everything
back, in any order, restores the single free block of `dark_matter_init`. -/
theorem heap_invariant (hr : Reachable h live) :
    Tiles sizeofBlock 0 (blocks h) kArenaSize ∧
    ((blocks h).map fun b => sizeofBlock + b.size).sum = kArenaSize ∧
    (∀ b ∈ blocks h, b.size % 16 = 0) ∧
    NoAdjFree (blocks h) ∧
    (live.Pairwise fun x y => x.1 + payloadSize h x.1 ≤ y.1 ∨ y.1 + payloadSize h y.1 ≤ x.1) ∧
    (∀ x ∈ live, sizeofBlock ≤ x.1 ∧ x.1 + payloadSize h x.1 ≤ kArenaSize ∧
      x.2 ≤ payloadSize h x.1) ∧
    (∀ size, size ≤ 2 ^ 64 - 16 → ((darkMatterAlloc h size).1 = none ↔
      size = 0 ∨ ∀ b ∈ blocks h, b.free = true → b.size < alignUp size 16)) ∧
    ∀ order : List Nat, order.Perm (live.map Prod.fst) →
      ∀ h₀ : Heap, blocks (order.foldl (fun h p => darkMatterFree h (some p)) h) =
        blocks (darkMatterInit h₀) := by
  obtain ⟨cs, hi⟩ := hr.inv
  rw [hi.blocks_eq]
  refine ⟨hi.walk.tiles, ?_, hi.gran, hi.noAdj, hi.disjoint, fun x hx => ?_, fun size hsize => ?_,
    fun order hp h₀ => ?_⟩
  · have := hi.walk.tiles.sum_eq
    omega
  · obtain ⟨c, hc, hcx, hlen, hps⟩ := hi.payload hx
    have := hi.walk.tiles.bounds hc
    omega
  · rcases hi.alloc hsize with ⟨hnone, -, hwhy⟩ | ⟨h0, c, hc, hfree, hfit, hsome, -⟩
    · simp [hnone, hwhy]
    · rw [hsome]
      refine ⟨nofun, ?_⟩
      rintro (h | h)
      · exact absurd h h0
      · exact absurd (h c hc hfree) (by omega)
  · rw [hr.free_all order hp, (inv_init h₀).blocks_eq]

/-- The invariant at work: on a fresh heap the request for 24 bytes is served at offset 16, and
giving it back restores the heap. -/
theorem heap_invariant_alloc_free :
    (darkMatterAlloc (darkMatterInit ⟨fun _ => 0, false, 0, 0⟩) 24).1 = some 16 ∧
    ∀ h₀ : Heap, blocks (darkMatterFree
      (darkMatterAlloc (darkMatterInit ⟨fun _ => 0, false, 0, 0⟩) 24).2 (some 16)) =
        blocks (darkMatterInit h₀) := by
  have hp : (darkMatterAlloc (darkMatterInit ⟨fun _ => 0, false, 0, 0⟩) 24).1 = some 16 := by
    decide
  have hr := (Reachable.init ⟨fun _ => 0, false, 0, 0⟩).alloc (by decide) hp
  exact ⟨hp, (heap_invariant hr).2.2.2.2.2.2.2 [16] (List.Perm.refl _)⟩

end IndexOS.DarkMatter
