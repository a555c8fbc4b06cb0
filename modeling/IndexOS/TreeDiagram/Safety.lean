import IndexOS.Lib.LinkedList
import IndexOS.TreeDiagram.Pages

/-!
# Safety of the page allocator

A page is *usable* if it lies wholly inside one memory region and has no reserved byte.  Every page
that is handed out should be usable, should not be handed out again before it is freed, and
`used_pages` should count the pages that are out.

* Sorting and carving: `sortReserved` sorts, and each range that `carveLoop` adds behind its cursor
  misses every span (`carveLoop_grows`).  So the pages of the ranges of `init` are usable, and the
  ranges are apart from each other (`carved_init`).
* The run: the pages below a range's `current` are the pages that are out and those on the stack of
  freed pages, each once (`Inv`); every legal step keeps this (`Inv.step`).

Three things go wrong at the ends of the address space.  A range that ends at the last page boundary
is never exhausted, because the address behind the next page is 0; page 0 cannot be told from the
null pointer; and two pages with one alias in the high half overwrite each other's link.
`safe_run` holds where no such page is usable.
-/

set_option autoImplicit false

namespace IndexOS.TreeDiagram

open List

/-! ## What is promised -/

/-- The byte at `a` belongs to the region. -/
def Region.Has (r : Region) (a : Nat) : Prop := r.base ≤ a ∧ a < r.base + r.size

/-- The byte at `a` belongs to the image, the device tree, the early heap or a reserved region. -/
def Reserved (b : Boot) (a : Nat) : Prop :=
  (b.imageStart ≤ a ∧ a < b.imageEnd) ∨ (b.dtbAddr ≤ a ∧ a < b.dtbAddr + b.dtbSize) ∨
    (b.earlyHeapStart ≤ a ∧ a < b.earlyHeapEnd) ∨ ∃ r ∈ b.aimDiffusionField, r.Has a

/-- A page that may be handed out. -/
structure Usable (b : Boot) (page : Nat) : Prop where
  aligned : kPageSize ∣ page
  inside : ∃ r ∈ b.memory, r.base ≤ page ∧ page + kPageSize ≤ r.base + r.size
  free : ∀ a, page ≤ a → a < page + kPageSize → ¬ Reserved b a

/-- The state is as the callers of the allocator expect it. -/
structure Safe (b : Boot) (s : State) : Prop where
  usable : ∀ page ∈ s.out, Usable b page
  once : s.out.Nodup
  used : s.machine.tree.usedPages = s.out.length

/-- No byte belongs to two regions of the memory map. -/
def MemoryDisjoint (b : Boot) : Prop :=
  b.memory.Pairwise fun r r' => ∀ a, r.Has a → ¬ r'.Has a

/-- No end of a region or span, and no address rounded up to a page, reaches 2 ^ 64. -/
structure Fits (b : Boot) : Prop where
  memory : ∀ r ∈ b.memory, r.base + r.size < 2 ^ 64 ∧ r.base + kPageSize ≤ 2 ^ 64
  field : ∀ r ∈ b.aimDiffusionField, r.base + r.size + kPageSize ≤ 2 ^ 64
  dtb : b.dtbAddr + b.dtbSize + kPageSize ≤ 2 ^ 64
  image : b.imageEnd + kPageSize ≤ 2 ^ 64
  heap : b.earlyHeapEnd + kPageSize ≤ 2 ^ 64

/-- No page at the ends of the address space is usable, and no two usable pages have one alias. -/
structure Ordinary (b : Boot) : Prop where
  notFirst : ¬ Usable b 0
  notLast : ¬ Usable b (2 ^ 64 - 2 * kPageSize)
  alias_inj : ∀ p q, Usable b p → Usable b q → freeSlot p = freeSlot q → p = q

/-! ## Rounding -/

theorem add64_eq {a b : Nat} (h : a + b < 2 ^ 64) : add64 a b = a + b := Nat.mod_eq_of_lt h

theorem alignDown_le (x : Nat) : alignDown x ≤ x := Nat.div_mul_le_self x kPageSize

theorem dvd_alignDown (x : Nat) : kPageSize ∣ alignDown x := Nat.dvd_mul_left ..

theorem dvd_alignUp (x : Nat) : kPageSize ∣ alignUp x := Nat.dvd_mul_left ..

theorem alignDown_of_dvd {x : Nat} (h : kPageSize ∣ x) : alignDown x = x := Nat.div_mul_cancel h

theorem le_alignUp {x : Nat} (h : x + kPageSize ≤ 2 ^ 64) : x ≤ alignUp x := by
  unfold alignUp
  rw [add64_eq (by unfold kPageSize at *; omega)]
  unfold kPageSize
  omega

theorem alignDown_add_le {x : Nat} (h : x < 2 ^ 64) : alignDown x + kPageSize ≤ 2 ^ 64 := by
  unfold alignDown kPageSize
  omega

/-- Between two page boundaries there is room for a page. -/
theorem add_page_le {p q : Nat} (hp : kPageSize ∣ p) (hq : kPageSize ∣ q) (h : p < q) :
    p + kPageSize ≤ q := by
  unfold kPageSize at *
  omega

/-! ## The sort -/

theorem perm_sortPass (x : Span) (l : List Span) :
    ((sortPass x l).1 :: (sortPass x l).2).Perm (x :: l) := by
  induction l generalizing x with
  | nil => exact .refl _
  | cons y l ih =>
    unfold sortPass
    split
    · exact (Perm.swap ..).trans ((ih y).cons x)
    · exact (Perm.swap ..).trans (((ih x).cons y).trans (Perm.swap ..))

theorem sortPass_le (x : Span) (l : List Span) :
    (sortPass x l).1.start ≤ x.start ∧ ∀ y ∈ (sortPass x l).2,
    (sortPass x l).1.start ≤ y.start := by
  induction l generalizing x with
  | nil => exact ⟨le_refl _, by simp [sortPass]⟩
  | cons y l ih =>
    unfold sortPass
    split
    case isTrue h =>
      obtain ⟨hfirst, hrest⟩ := ih y
      refine ⟨by simp only; omega, fun z hz => ?_⟩
      rcases mem_cons.mp hz with rfl | hz
      · simp only
        omega
      · exact hrest z hz
    case isFalse h =>
      obtain ⟨hfirst, hrest⟩ := ih x
      refine ⟨hfirst, fun z hz => ?_⟩
      rcases mem_cons.mp hz with rfl | hz
      · simp only
        omega
      · exact hrest z hz

theorem perm_sortReserved (n : Nat) (l : List Span) : (sortReserved n l).Perm l := by
  induction n generalizing l with
  | zero => exact .refl _
  | succ n ih =>
    cases l with
    | nil => exact .refl _
    | cons x l => exact ((ih _).cons _).trans (perm_sortPass x l)

theorem sorted_sortReserved (n : Nat) (l : List Span) (hn : l.length ≤ n) :
    (sortReserved n l).Pairwise fun x y => x.start ≤ y.start := by
  induction n generalizing l with
  | zero => rw [length_eq_zero_iff.mp (Nat.le_zero.mp hn)]; exact .nil
  | succ n ih =>
    cases l with
    | nil => exact .nil
    | cons x l =>
      have hlength : (sortPass x l).2.length = l.length := by
        simpa using (perm_sortPass x l).length_eq
      refine pairwise_cons.mpr ⟨fun y hy => ?_, ih _ (by simp at hn; omega)⟩
      exact (sortPass_le x l).2 y ((perm_sortReserved _ _).mem_iff.mp hy)

/-! ## Carving -/

/-- The two ranges have no page in common. -/
def Range.Apart (r r' : Range) : Prop := r.fin ≤ r'.start ∨ r'.fin ≤ r.start

/-- A range cut out between `lo` and `hi`, from which nothing has been taken. -/
structure Cut (lo hi : Nat) (r : Range) : Prop where
  lo_le : lo ≤ r.start
  start_lt : r.start < r.fin
  le_hi : r.fin ≤ hi
  start_dvd : kPageSize ∣ r.start
  fin_dvd : kPageSize ∣ r.fin
  fresh : r.current = r.start

variable {r : Range} {page : Nat} {b : Boot}

theorem Cut.mono {lo lo' hi hi' : Nat} (h : Cut lo hi r) (hlo : lo' ≤ lo) (hhi : hi ≤ hi') :
    Cut lo' hi' r :=
  ⟨hlo.trans h.lo_le, h.start_lt, h.le_hi.trans hhi, h.start_dvd, h.fin_dvd, h.fresh⟩

/-- New ranges are appended, and nothing is handed out or given back. -/
structure Grows (d d' : Diagram) (new : List Range) : Prop where
  ranges : d'.ranges = d.ranges ++ new
  used : d'.usedPages = d.usedPages
  free : d'.freeList = d.freeList

theorem Grows.refl (d : Diagram) : Grows d d [] := ⟨(append_nil _).symm, rfl, rfl⟩

/-- `add_range` appends at most one range. -/
theorem addRange_grows (d : Diagram) {s e : Nat} (hs : s + kPageSize ≤ 2 ^ 64) :
    ∃ new, Grows d (addRange d s e) new ∧ (∀ r ∈ new, Cut s e r) ∧ new.Pairwise Range.Apart := by
  simp only [addRange]
  split
  · exact ⟨[], .refl d, by simp⟩
  case isFalse h =>
    simp only [not_or, not_le] at h
    refine ⟨[⟨alignUp s, alignUp s, alignDown e⟩], ⟨rfl, rfl, rfl⟩,
      fun r hr => ?_, pairwise_singleton ..⟩
    rw [mem_singleton.mp hr]
    exact ⟨le_alignUp hs, h.1, alignDown_le e, dvd_alignUp s, dvd_alignDown e, rfl⟩

/-- The range and the span have no byte in common. -/
def Range.Misses (r : Range) (span : Span) : Prop := r.fin ≤ span.start ∨ span.fin ≤ r.start

/-- The ranges that the loop of `carve_range` adds lie between the cursor and the limit, are apart
from each other and miss the spans that are still to come.  The spans are sorted, so what is cut off
in front of one span also misses the later ones. -/
theorem carveLoop_grows {limit : Nat} (hlimit : limit + kPageSize ≤ 2 ^ 64) (spans : List Span)
    (hsorted : spans.Pairwise fun x y => x.start ≤ y.start)
    (hfit : ∀ span ∈ spans, span.start ≤ span.fin ∧ span.fin + kPageSize ≤ 2 ^ 64)
    (d : Diagram) (cursor : Nat) :
    ∃ new, Grows d (carveLoop d cursor limit spans) new ∧ (∀ r ∈ new, Cut cursor limit r) ∧
      new.Pairwise Range.Apart ∧ ∀ r ∈ new, ∀ span ∈ spans, r.Misses span := by
  induction spans generalizing d cursor with
  | nil =>
    unfold carveLoop
    split
    case isTrue h =>
      obtain ⟨new, hgrows, hcut, hapart⟩ := addRange_grows d (s := cursor) (by omega)
      exact ⟨new, hgrows, hcut, hapart, by simp⟩
    case isFalse => exact ⟨[], .refl d, by simp⟩
  | cons span spans ih =>
    have hlater := (pairwise_cons.mp hsorted).1
    replace ih := ih (pairwise_cons.mp hsorted).2 fun s hs =>
      hfit s (mem_cons_of_mem _ hs)
    obtain ⟨hspan, hspanEnd⟩ := hfit span mem_cons_self
    have hend : span.fin ≤ alignUp span.fin := le_alignUp hspanEnd
    have hstart : alignDown span.start ≤ span.start := alignDown_le _
    simp only [carveLoop]
    split
    case isFalse => exact ⟨[], .refl d, by simp⟩
    case isTrue hcursor =>
    split
    case isTrue hskip =>
      obtain ⟨new, hgrows, hcut, hapart, hmiss⟩ := ih d cursor
      refine ⟨new, hgrows, hcut, hapart, fun r hr s hs => ?_⟩
      rcases mem_cons.mp hs with rfl | hs
      · have hr := hcut r hr
        rcases hskip with h | h
        · exact .inr (hend.trans (h.trans hr.lo_le))
        · exact .inl (hr.le_hi.trans (le_trans h hstart))
      · exact hmiss r hr s hs
    case isFalse hmeets =>
      simp only [not_or, not_le] at hmeets
      rw [if_pos hmeets.1]
      -- What is cut off in front of the span.
      generalize hd :
        (if alignDown span.start > cursor then addRange d cursor (alignDown span.start) else d) = d'
      have hfront : ∃ front, Grows d d' front ∧ (∀ r ∈ front, Cut cursor (alignDown span.start) r) ∧
          front.Pairwise Range.Apart := by
        rw [← hd]
        split
        · exact addRange_grows d (by omega)
        · exact ⟨[], .refl d, by simp⟩
      obtain ⟨front, hfgrows, hfcut, hfapart⟩ := hfront
      obtain ⟨new, hgrows, hcut, hapart, hmiss⟩ := ih d' (alignUp span.fin)
      refine ⟨front ++ new, ⟨?_, hgrows.used.trans hfgrows.used, hgrows.free.trans hfgrows.free⟩,
        fun r hr => ?_, ?_, ?_⟩
      · rw [hgrows.ranges, hfgrows.ranges, append_assoc]
      · rcases mem_append.mp hr with hr | hr
        · exact (hfcut r hr).mono (le_refl _) hmeets.2.le
        · exact (hcut r hr).mono hmeets.1.le (le_refl _)
      · refine pairwise_append.mpr ⟨hfapart, hapart, ?_⟩
        intro r hr r' hr'
        exact .inl ((hfcut r hr).le_hi.trans
          (hstart.trans (hspan.trans (hend.trans (hcut r' hr').lo_le))))
      · intro r hr s hs
        rcases mem_append.mp hr with hr | hr <;> rcases mem_cons.mp hs with rfl | hs
        · exact .inl ((hfcut r hr).le_hi.trans hstart)
        · exact .inl ((hfcut r hr).le_hi.trans (hstart.trans (hlater s hs)))
        · exact .inr (hend.trans (hcut r hr).lo_le)
        · exact hmiss r hr s hs

/-! ## The spans of `init` -/

/-- Each reserved region with a byte in it is entered; the array has room for all of them. -/
theorem mem_reserveFields {rs : List Region}
    (hfit : ∀ r ∈ rs, r.base + r.size + kPageSize ≤ 2 ^ 64) (n : Nat)
    (hn : n + rs.length ≤ kMaxAIMDiffusionRanges + 3) (span : Span) :
    span ∈ reserveFields n rs ↔
      ∃ r ∈ rs, 0 < r.size ∧ span = ⟨r.base, r.base + r.size⟩ := by
  induction rs generalizing n with
  | nil => simp [reserveFields]
  | cons r rs ih =>
    replace ih := ih fun r' hr' => hfit r' (mem_cons_of_mem _ hr')
    have hr := hfit r mem_cons_self
    rw [length_cons] at hn
    simp only [reserveFields]
    rw [if_pos (by omega), add64_eq (by unfold kPageSize at hr; omega)]
    split
    case isTrue h =>
      rw [mem_cons, ih (n + 1) (by omega)]
      simp only [mem_cons]
      have hpos : 0 < r.size := by omega
      simp [hpos]
    case isFalse h =>
      rw [ih n (by omega)]
      simp only [mem_cons]
      have hzero : ¬ 0 < r.size := by omega
      simp [hzero]

section
variable (hfit : Fits b)
include hfit

/-- What `init` enters into its array. -/
theorem mem_reservedSpans (span : Span) :
    span ∈ reservedSpans b ↔
      (b.imageStart < b.imageEnd ∧ span = ⟨b.imageStart, b.imageEnd⟩) ∨
      (b.dtbSize ≠ 0 ∧ span = ⟨b.dtbAddr, b.dtbAddr + b.dtbSize⟩) ∨
      (b.earlyHeapStart < b.earlyHeapEnd ∧ span = ⟨b.earlyHeapStart, b.earlyHeapEnd⟩) ∨
      ∃ r ∈ b.aimDiffusionField, 0 < r.size ∧ span = ⟨r.base, r.base + r.size⟩ := by
  have hdtb := hfit.dtb
  have haim := b.aim_le
  simp only [reservedSpans]
  rw [mem_append, mem_reserveFields hfit.field, add64_eq (by unfold kPageSize at hdtb; omega)]
  · simp only [mem_append, mem_ite_nil_right, mem_singleton]
    tauto
  · have hown : ∀ (P : Prop) [Decidable P] (x : Span), (if P then [x] else []).length ≤ 1 := by
      intro P _ x
      split <;> simp
    simp only [length_append]
    have h1 := hown (b.imageStart < b.imageEnd) ⟨b.imageStart, b.imageEnd⟩
    have h2 := hown (b.dtbSize ≠ 0) ⟨b.dtbAddr, add64 b.dtbAddr b.dtbSize⟩
    have h3 := hown (b.earlyHeapStart < b.earlyHeapEnd) ⟨b.earlyHeapStart, b.earlyHeapEnd⟩
    omega

theorem span_fits {span : Span} (h : span ∈ reservedSpans b) :
    span.start ≤ span.fin ∧ span.fin + kPageSize ≤ 2 ^ 64 := by
  rcases (mem_reservedSpans hfit span).mp h with ⟨hlt, rfl⟩ | ⟨-, rfl⟩ | ⟨hlt, rfl⟩
    | ⟨r, hr, -, rfl⟩
  · exact ⟨hlt.le, hfit.image⟩
  · exact ⟨Nat.le_add_right _ _, hfit.dtb⟩
  · exact ⟨hlt.le, hfit.heap⟩
  · exact ⟨Nat.le_add_right _ _, hfit.field r hr⟩

/-- Every reserved byte lies in a span. -/
theorem reserved_mem_span {a : Nat} (h : Reserved b a) :
    ∃ span ∈ reservedSpans b, span.start ≤ a ∧ a < span.fin := by
  simp only [mem_reservedSpans hfit]
  rcases h with h | h | h | ⟨r, hr, h⟩
  · exact ⟨_, .inl ⟨by omega, rfl⟩, h⟩
  · exact ⟨_, .inr (.inl ⟨by omega, rfl⟩), h⟩
  · exact ⟨_, .inr (.inr (.inl ⟨by omega, rfl⟩)), h⟩
  · exact ⟨_, .inr (.inr (.inr ⟨r, hr, by have := h.1; have := h.2; omega, rfl⟩)), h⟩

/-! ## The ranges of `init` -/

/-- The range lies in one of the regions and has no reserved byte. -/
structure Carved (b : Boot) (regions : List Region) (r : Range) : Prop where
  inside : ∃ m ∈ regions, Cut m.base (m.base + m.size) r
  le : r.fin + kPageSize ≤ 2 ^ 64
  misses : ∀ span ∈ reservedSpans b, r.Misses span

/-- What is carved out of one region. -/
theorem carveRegion_grows {m : Region} (hm : m ∈ b.memory) (d : Diagram) :
    ∃ new, Grows d (carveRegion b (sortReserved (reservedSpans b).length (reservedSpans b)) d m)
      new ∧ (∀ r ∈ new, Carved b [m] r) ∧ new.Pairwise Range.Apart := by
  obtain ⟨hend, hbase⟩ := hfit.memory m hm
  simp only [carveRegion]
  rw [add64_eq hend]
  generalize hstart : (if b.imageStart < m.base + m.size ∧ b.imageEnd > m.base then b.imageEnd
    else m.base) = start
  have hle : m.base ≤ start ∧ start + kPageSize ≤ 2 ^ 64 := by
    have himage := hfit.image
    split at hstart <;> omega
  split
  case isFalse => exact ⟨[], .refl d, by simp⟩
  case isTrue hlt =>
    obtain ⟨new, hgrows, hcut, hapart, hmiss⟩ := carveLoop_grows (alignDown_add_le hend) _
      (sorted_sortReserved _ _ (le_refl (reservedSpans b).length))
      (fun span h => span_fits hfit ((perm_sortReserved _ _).mem_iff.mp h)) d (alignUp start)
    refine ⟨new, hgrows, fun r hr => ⟨⟨m, mem_singleton_self m, ?_⟩, ?_, fun span h => ?_⟩, hapart⟩
    · exact (hcut r hr).mono (hle.1.trans (le_alignUp hle.2)) (alignDown_le _)
    · exact le_trans (Nat.add_le_add_right (hcut r hr).le_hi _) (alignDown_add_le hend)
    · exact hmiss r hr span ((perm_sortReserved _ _).mem_iff.mpr h)

end

/-- Ranges cut out of disjoint regions are apart. -/
theorem apart_of_disjoint {m m' : Region} {r r' : Range} (hdisj : ∀ a, m.Has a → ¬ m'.Has a)
    (hr : Cut m.base (m.base + m.size) r) (hr' : Cut m'.base (m'.base + m'.size) r') :
    r.Apart r' := by
  by_contra hmeet
  simp only [Range.Apart, not_or] at hmeet
  -- The later of the two starts is a byte of both regions.
  obtain ⟨h1, h2, h3, -⟩ := hr
  obtain ⟨h1', h2', h3', -⟩ := hr'
  exact hdisj (max r.start r'.start) ⟨by omega, by omega⟩ ⟨by omega, by omega⟩

theorem Carved.mono {ms ms' : List Region} (h : Carved b ms r) (hsub : ∀ m ∈ ms, m ∈ ms') :
    Carved b ms' r := by
  obtain ⟨⟨m, hm, hcut⟩, hle, hmiss⟩ := h
  exact ⟨⟨m, hsub m hm, hcut⟩, hle, hmiss⟩

/-- Nothing has been handed out and nothing given back. -/
def Diagram.Untouched (d : Diagram) : Prop := d.usedPages = 0 ∧ d.freeList = 0

/-- The loop of `init` over the memory map, with the regions `done` behind it. -/
theorem carve_regions (hfit : Fits b) (ms done : List Region) (d : Diagram)
    (hmem : ∀ m ∈ ms, m ∈ b.memory)
    (hdisj : (done ++ ms).Pairwise fun m m' => ∀ a, m.Has a → ¬ m'.Has a)
    (hcarved : ∀ r ∈ d.ranges, Carved b done r) (hapart : d.ranges.Pairwise Range.Apart)
    (hd : d.Untouched) :
    let d' := ms.foldl
      (carveRegion b (sortReserved (reservedSpans b).length (reservedSpans b))) d
    (∀ r ∈ d'.ranges, Carved b (done ++ ms) r) ∧ d'.ranges.Pairwise Range.Apart ∧ d'.Untouched := by
  induction ms generalizing done d with
  | nil => simpa using ⟨hcarved, hapart, hd⟩
  | cons m ms ih =>
    obtain ⟨new, ⟨heq, hused, hfree⟩, hnew, hnewApart⟩ :=
      carveRegion_grows hfit (hmem m mem_cons_self) d
    rw [append_cons] at hdisj ⊢
    have hone := (pairwise_append.mp (pairwise_append.mp hdisj).1).2.2
    refine ih (done ++ [m]) _ (fun m' h => hmem m' (mem_cons_of_mem _ h)) hdisj ?_ ?_
      ⟨hused.trans hd.1, hfree.trans hd.2⟩
    · rw [heq]
      intro r hr
      rcases mem_append.mp hr with hr | hr
      · exact (hcarved r hr).mono fun m' h => mem_append_left _ h
      · exact (hnew r hr).mono fun m' h => mem_append_right _ h
    · rw [heq]
      refine pairwise_append.mpr ⟨hapart, hnewApart, fun r hr r' hr' => ?_⟩
      obtain ⟨m₁, hm₁, hcut₁⟩ := (hcarved r hr).inside
      obtain ⟨m₂, hm₂, hcut₂⟩ := (hnew r' hr').inside
      exact apart_of_disjoint (hone m₁ hm₁ m₂ hm₂) hcut₁ hcut₂

theorem carved_init (hfit : Fits b) (hdisj : MemoryDisjoint b) :
    (∀ r ∈ (init b).ranges, Carved b b.memory r) ∧ (init b).ranges.Pairwise Range.Apart ∧
    (init b).Untouched :=
  carve_regions hfit b.memory [] {} (fun _ h => h) hdisj (by simp) .nil ⟨rfl, rfl⟩

/-- The pages of a carved range are usable. -/
theorem Carved.usable (hfit : Fits b) (h : Carved b b.memory r) (hdvd : kPageSize ∣ page)
    (hstart : r.start ≤ page) (hfin : page + kPageSize ≤ r.fin) : Usable b page := by
  obtain ⟨m, hm, hcut⟩ := h.inside
  refine ⟨hdvd, ⟨m, hm, hcut.lo_le.trans hstart, hfin.trans hcut.le_hi⟩, fun a hle hlt hres => ?_⟩
  obtain ⟨span, hspan, h1, h2⟩ := reserved_mem_span hfit hres
  rcases h.misses span hspan with h3 | h3 <;> omega

/-! ## The invariant of a run -/

/-- A range from which the pages below `current` have been taken. -/
structure Range.Ok (b : Boot) (r : Range) : Prop where
  start_le : r.start ≤ r.current
  le_fin : r.current ≤ r.fin
  current_dvd : kPageSize ∣ r.current
  fin_lt : r.fin + kPageSize < 2 ^ 64
  usable : ∀ page, kPageSize ∣ page → r.start ≤ page → page + kPageSize ≤ r.fin → Usable b page

/-- The page lies in one of the ranges, below its `current`. -/
def Taken (ranges : List Range) (page : Nat) : Prop :=
  ∃ r ∈ ranges, kPageSize ∣ page ∧ r.start ≤ page ∧ page < r.current

/-- The pages that have been taken from the ranges are out or on the stack, each of them once. -/
structure Inv (b : Boot) (s : State) (stack : List Nat) : Prop where
  ok : ∀ r ∈ s.machine.tree.ranges, r.Ok b
  apart : s.machine.tree.ranges.Pairwise Range.Apart
  linked : LinkedList.Linked (fun page => s.machine.mem (freeSlot page)) (· = 0)
    s.machine.tree.freeList stack
  once : (stack ++ s.out).Nodup
  taken : ∀ page ∈ stack ++ s.out, Taken s.machine.tree.ranges page
  used : s.machine.tree.usedPages = s.out.length

variable {ranges : List Range}

theorem Taken.usable (hok : ∀ r ∈ ranges, r.Ok b) (h : Taken ranges page) :
    Usable b page := by
  obtain ⟨r, hr, hdvd, hstart, hlt⟩ := h
  have hroom := add_page_le hdvd (hok r hr).current_dvd hlt
  exact (hok r hr).usable page hdvd hstart (hroom.trans (hok r hr).le_fin)

theorem Inv.usable {s : State} {stack : List Nat} (h : Inv b s stack) (hp : page ∈ stack ++ s.out) :
    Usable b page :=
  (h.taken page hp).usable h.ok

theorem Inv.safe {s : State} {stack : List Nat} (h : Inv b s stack) : Safe b s where
  usable _ hp := h.usable (mem_append_right _ hp)
  once := (nodup_append.mp h.once).2.1
  used := h.used

/-- The state after `init`. -/
theorem inv_boot (hfit : Fits b) (hdisj : MemoryDisjoint b) (hord : Ordinary b) (mem : Nat → Nat) :
    Inv b (.boot b mem) [] := by
  obtain ⟨hcarved, hapart, hused, hfree⟩ := carved_init hfit hdisj
  refine ⟨fun r hr => ?_, hapart, hfree, .nil, by simp [State.boot], hused⟩
  have h := hcarved r hr
  obtain ⟨m, hm, hcut⟩ := h.inside
  have hfresh := hcut.fresh
  have hlt := hcut.start_lt
  refine ⟨by omega, by omega, by rw [hfresh]; exact hcut.start_dvd, ?_, fun page => h.usable hfit⟩
  -- If the range ended at the last page boundary, the page in front of it would be usable.
  refine lt_of_le_of_ne h.le fun hlast => hord.notLast ?_
  have hroom := add_page_le hcut.start_dvd hcut.fin_dvd hlt
  refine h.usable hfit (by decide) ?_ ?_ <;> omega

/-! ## The slots of freed pages -/

theorem dvd_freeSlot (h : kPageSize ∣ page) : kPageSize ∣ freeSlot page := by
  have hsize : kPageSize = 2 ^ 12 := rfl
  rw [hsize] at h ⊢
  rw [Nat.dvd_iff_mod_eq_zero, freeSlot, Nat.or_mod_two_pow, Nat.mod_eq_zero_of_dvd h]
  decide

/-- A word of one usable page is no link of another. -/
theorem freeSlot_ne (hord : Ordinary b) {p q a : Nat} (hp : Usable b p) (hq : Usable b q)
    (hne : p ≠ q) (hle : freeSlot p ≤ a) (hlt : a < freeSlot p + kPageSize) : freeSlot q ≠ a := by
  intro heq
  have h1 := dvd_freeSlot hp.aligned
  have h2 := dvd_freeSlot hq.aligned
  refine hne (hord.alias_inj p q hp hq ?_)
  unfold kPageSize at *
  omega

/-! ## The steps -/

/-- What the bump part takes. -/
theorem bump_spec {ranges' : List Range} (hfit : ∀ r ∈ ranges, r.current + kPageSize < 2 ^ 64)
    (h : bump ranges = some (page, ranges')) :
    ∃ before r after, ranges = before ++ r :: after ∧ page = r.current ∧
      page + kPageSize ≤ r.fin ∧
      ranges' = before ++ { r with current := page + kPageSize } :: after := by
  induction ranges generalizing page ranges' with
  | nil => exact absurd h (by simp [bump])
  | cons r rs ih =>
    unfold bump at h
    rw [add64_eq (hfit r mem_cons_self)] at h
    split at h
    case isTrue hroom =>
      obtain ⟨rfl, rfl⟩ : r.current = page ∧ _ = ranges' := by simpa using h
      exact ⟨[], r, rs, rfl, rfl, hroom, rfl⟩
    case isFalse =>
      obtain ⟨⟨page', rs'⟩, hrest, heq⟩ := Option.map_eq_some_iff.mp h
      obtain ⟨rfl, rfl⟩ : page' = page ∧ r :: rs' = ranges' := by simpa using heq
      obtain ⟨before, r', after, rfl, hpage, hroom, rfl⟩ :=
        ih (fun x hx => hfit x (mem_cons_of_mem _ hx)) hrest
      exact ⟨r :: before, r', after, rfl, hpage, hroom, rfl⟩

theorem Range.Ok.current_lt (h : r.Ok b) : r.current + kPageSize < 2 ^ 64 :=
  lt_of_le_of_lt (Nat.add_le_add_right h.le_fin _) h.fin_lt

section Bump

variable {b : Boot} {before after : List Range} {r : Range}

/-- The page at `current` has not been taken. -/
theorem not_taken_current (hok : ∀ x ∈ before ++ r :: after, x.Ok b)
    (hapart : (before ++ r :: after).Pairwise Range.Apart) (hroom : r.current + kPageSize ≤ r.fin) :
    ¬ Taken (before ++ r :: after) r.current := by
  rintro ⟨x, hx, -, hstart, hlt⟩
  have hr := (hok r (by simp)).start_le
  have hle := (hok x hx).le_fin
  have hmeet : ¬ x.Apart r ∧ ¬ r.Apart x := by
    unfold Range.Apart kPageSize at *
    omega
  obtain ⟨-, hright, hcross⟩ := pairwise_append.mp hapart
  rcases mem_append.mp hx with hx | hx
  · exact hmeet.1 (hcross x hx r mem_cons_self)
  · rcases mem_cons.mp hx with rfl | hx
    · exact lt_irrefl _ hlt
    · exact hmeet.2 ((pairwise_cons.mp hright).1 x hx)

theorem ok_advance (hok : ∀ x ∈ before ++ r :: after, x.Ok b)
    (hroom : r.current + kPageSize ≤ r.fin) :
    ∀ x ∈ before ++ { r with current := r.current + kPageSize } :: after, x.Ok b := by
  intro x hx
  simp only [mem_append, mem_cons] at hx
  rcases hx with hx | rfl | hx
  · exact hok x (by simp [hx])
  · have h := hok r (by simp)
    exact ⟨h.start_le.trans (Nat.le_add_right _ _), hroom, Nat.dvd_add h.current_dvd dvd_rfl,
      h.fin_lt, h.usable⟩
  · exact hok x (by simp [hx])

theorem apart_advance (c : Nat) (h : (before ++ r :: after).Pairwise Range.Apart) :
    (before ++ { r with current := c } :: after).Pairwise Range.Apart := by
  simp only [pairwise_append, pairwise_cons, mem_cons, forall_eq_or_imp] at h ⊢
  exact h

theorem Taken.advance (h : Taken (before ++ r :: after) page) :
    Taken (before ++ { r with current := r.current + kPageSize } :: after) page := by
  obtain ⟨x, hx, hdvd, hstart, hlt⟩ := h
  simp only [mem_append, mem_cons] at hx
  rcases hx with hx | rfl | hx
  · exact ⟨x, by simp [hx], hdvd, hstart, hlt⟩
  · exact ⟨_, mem_append_right _ mem_cons_self, hdvd, hstart,
      hlt.trans_le (Nat.le_add_right _ _)⟩
  · exact ⟨x, by simp [hx], hdvd, hstart, hlt⟩

theorem taken_current (hok : ∀ x ∈ before ++ r :: after, x.Ok b) :
    Taken (before ++ { r with current := r.current + kPageSize } :: after) r.current := by
  have h := hok r (by simp)
  exact ⟨_, mem_append_right _ mem_cons_self, h.current_dvd, h.start_le,
    Nat.lt_add_of_pos_right (by decide)⟩

end Bump

variable {b : Boot} {s : State} {stack : List Nat}

theorem Inv.ne_zero (h : Inv b s stack) (hord : Ordinary b) (hp : page ∈ stack ++ s.out) :
    page ≠ 0 := by
  rintro rfl
  exact hord.notFirst (h.usable hp)

/-- A page is taken from the stack. -/
theorem Inv.pop (h : Inv b s (page :: stack)) (hord : Ordinary b) :
    Inv b ⟨⟨{ s.machine.tree with
        freeList := s.machine.mem (freeSlot page), usedPages := s.machine.tree.usedPages + 1 },
      Function.update s.machine.mem (freeSlot page + 8) 0⟩, page :: s.out⟩ stack where
  ok := h.ok
  apart := h.apart
  linked := by
    refine h.linked.2.2.congr fun q hq => Function.update_of_ne ?_ _ _
    have hne : page ≠ q := fun heq => (nodup_cons.mp h.once).1 (by rw [heq]; simp [hq])
    exact freeSlot_ne hord (h.usable (by simp)) (h.usable (by simp [hq])) hne (Nat.le_add_right _ _)
      (by unfold kPageSize; omega)
  once := (perm_middle.nodup_iff).mpr h.once
  taken q hq := h.taken q (perm_middle.mem_iff.mp hq)
  used := by simp [h.used]

/-- A page is taken from a range. -/
theorem Inv.bump (h : Inv b s stack)
    (hbump : bump s.machine.tree.ranges = some (page, ranges)) :
    Inv b ⟨{ s.machine with tree := { s.machine.tree with
        ranges := ranges, usedPages := s.machine.tree.usedPages + 1 } }, page :: s.out⟩ stack := by
  obtain ⟨before, r, after, heq, rfl, hroom, rfl⟩ :=
    bump_spec (fun r hr => (h.ok r hr).current_lt) hbump
  have hok := h.ok
  have hapart := h.apart
  have htaken := h.taken
  rw [heq] at hok hapart htaken
  refine ⟨ok_advance hok hroom, apart_advance _ hapart, h.linked, ?_,
    fun q hq => ?_, by simp [h.used]⟩
  · refine (perm_middle.nodup_iff).mpr (nodup_cons.mpr ⟨fun hmem => ?_, h.once⟩)
    exact not_taken_current hok hapart hroom (htaken _ hmem)
  · rcases mem_cons.mp (perm_middle.mem_iff.mp hq) with rfl | hq
    · exact taken_current hok
    · exact (htaken q hq).advance

section
variable (h : Inv b s stack) (hord : Ordinary b)
include h hord

/-- `allocate_page` -/
theorem Inv.allocate : ∃ stack', Inv b (s.step .allocate) stack' := by
  simp only [State.step, allocatePage]
  split
  · exact ⟨stack, h⟩
  · split
    case isTrue hne =>
      obtain ⟨rest, rfl, -⟩ := h.linked.pop hne
      exact ⟨rest, h.pop hord⟩
    case isFalse =>
      cases hbump : TreeDiagram.bump s.machine.tree.ranges with
      | none => exact ⟨stack, h⟩
      | some result =>
        have hinv := h.bump hbump
        have hne : result.1 ≠ 0 := hinv.ne_zero hord (by simp)
        simp only [if_neg hne]
        exact ⟨stack, hinv⟩

/-- `free_page` of a page that is out. -/
theorem Inv.free (hp : page ∈ s.out) : Inv b (s.step (.free page)) (page :: stack) := by
  have huse := h.usable (mem_append_right stack hp)
  have hne := h.ne_zero hord (mem_append_right stack hp)
  have hperm : (page :: stack ++ s.out.erase page).Perm (stack ++ s.out) :=
    (perm_middle.symm).trans ((perm_cons_erase hp).symm.append_left stack)
  have hnotin : page ∉ stack := fun hmem =>
    (nodup_append.mp h.once).2.2 page hmem page hp rfl
  simp only [State.step, freePage]
  rw [if_neg hne, alignDown_of_dvd huse.aligned]
  refine ⟨h.ok, h.apart, h.linked.push hne ?_ fun q hq => ?_, hperm.nodup_iff.mpr h.once,
    fun q hq => h.taken q (hperm.mem_iff.mp hq), ?_⟩
  · simp only
    rw [Function.update_of_ne (by omega), Function.update_self]
  · have hpq : page ≠ q := fun heq => hnotin (by rw [heq]; exact hq)
    have hslot (a : Nat) := freeSlot_ne (a := a) hord huse (h.usable (mem_append_left _ hq)) hpq
    simp only
    rw [Function.update_of_ne (hslot _ (Nat.le_add_right _ _) (by unfold kPageSize; omega)),
      Function.update_of_ne (hslot _ (le_refl _) (by unfold kPageSize; omega))]
  · simp only [h.used, length_erase_of_mem hp]

/-- A store of a holder. -/
theorem Inv.store {addr word page : Nat} (hp : page ∈ s.out) (hle : freeSlot page ≤ addr)
    (hlt : addr < freeSlot page + kPageSize) : Inv b (s.step (.store addr word)) stack := by
  refine ⟨h.ok, h.apart, h.linked.congr fun q hq => Function.update_of_ne ?_ _ _, h.once, h.taken,
    h.used⟩
  have hne : page ≠ q := fun heq => (nodup_append.mp h.once).2.2 q hq page hp heq.symm
  exact freeSlot_ne hord (h.usable (mem_append_right _ hp)) (h.usable (mem_append_left _ hq))
    hne hle hlt

theorem Inv.step {op : Op} (hop : op.Legal s) : ∃ stack', Inv b (s.step op) stack' := by
  cases op with
  | allocate => exact h.allocate hord
  | free page => exact ⟨_, h.free hord hop⟩
  | store addr word =>
    obtain ⟨page, hp, hle, hlt⟩ := hop
    exact ⟨_, h.store hord hp hle hlt⟩

theorem Inv.run (ops : List Op) (hops : Legal s ops) : ∃ stack', Inv b (s.run ops) stack' := by
  refine Traces.run_of_invariant (I := fun s => ∃ stack', Inv b s stack') ?_ ⟨stack, h⟩ hops
  rintro s op ⟨stack, h⟩ hop
  exact h.step hord hop

end

/-- **Main theorem.** In every run of the allocator in which only pages that are out are freed and
written to, the pages that are out are aligned, usable and out once, and `used_pages` counts
them. -/
theorem safe_run (b : Boot) (mem : Nat → Nat) (ops : List Op) (hdisj : MemoryDisjoint b)
    (hfit : Fits b) (hord : Ordinary b) (hops : Legal (.boot b mem) ops) :
    Safe b ((State.boot b mem).run ops) := by
  obtain ⟨stack, h⟩ := (inv_boot hfit hdisj hord mem).run hord ops hops
  exact h.safe

/-- Below 512 GiB a page can be told from its alias. -/
theorem freeSlot_mod (page : Nat) (h : page < 2 ^ 39) : freeSlot page % 2 ^ 39 = page := by
  rw [freeSlot, Nat.or_mod_two_pow, Nat.mod_eq_of_lt h]
  exact Nat.or_zero page

/-- Memory between the first page and 512 GiB has none of the pages that go wrong. -/
theorem ordinary_of_memory {b : Boot}
    (h : ∀ r ∈ b.memory, 0 < r.base ∧ r.base + r.size ≤ 2 ^ 39) : Ordinary b where
  notFirst huse := by
    obtain ⟨r, hr, hle, -⟩ := huse.inside
    have := (h r hr).1
    omega
  notLast huse := by
    obtain ⟨r, hr, -, hle⟩ := huse.inside
    have := (h r hr).2
    omega
  alias_inj p q hp hq heq := by
    obtain ⟨r, hr, -, hle⟩ := hp.inside
    obtain ⟨r', hr', -, hle'⟩ := hq.inside
    have h1 := (h r hr).2
    have h2 := (h r' hr').2
    unfold kPageSize at hle hle'
    rw [← freeSlot_mod p (by omega), heq, freeSlot_mod q (by omega)]

/-- Sixteen KiB at 1 GiB with the image in the first page and a reserved region in the third. -/
def smallBoard : Boot where
  memory := [⟨0x40000000, 0x4000⟩]
  aimDiffusionField := [⟨0x40002800, 0x100⟩]
  dtbAddr := 0x48000000
  dtbSize := 0x1000
  imageStart := 0x40000000
  imageEnd := 0x40000ABC
  earlyHeapStart := 0
  earlyHeapEnd := 0
  memory_le := by decide
  aim_le := by decide

theorem safe_run_smallBoard :
    Safe smallBoard ((State.boot smallBoard fun _ => 0).run
      [.allocate, .store (freeSlot 0x40001000) 7, .free 0x40001000, .allocate, .allocate]) := by
  refine safe_run _ _ _ (pairwise_singleton ..) ⟨?_, ?_, ?_, ?_, ?_⟩ (ordinary_of_memory ?_)
    (by decide +kernel)
  all_goals decide

/-- One page of memory in front of the last page of the address space. -/
def lastPage : Boot where
  memory := [⟨2 ^ 64 - 8192, 4096⟩]
  aimDiffusionField := []
  dtbAddr := 0
  dtbSize := 0
  imageStart := 0
  imageEnd := 0
  earlyHeapStart := 0
  earlyHeapEnd := 0
  memory_le := by decide
  aim_le := by decide

/-- The range of this page is never exhausted: the second page that is handed out lies behind the
memory region. -/
theorem lastPage_unsafe :
    MemoryDisjoint lastPage ∧ Fits lastPage ∧
      Legal (.boot lastPage fun _ => 0) [.allocate, .allocate] ∧
      ¬ Safe lastPage ((State.boot lastPage fun _ => 0).run [.allocate, .allocate]) := by
  refine ⟨pairwise_singleton .., ⟨?_, ?_, ?_, ?_, ?_⟩, by decide +kernel,
    fun hsafe => ?_⟩
  case refine_6 =>
    have hout : 2 ^ 64 - 4096 ∈
      ((State.boot lastPage fun _ => 0).run [.allocate, .allocate]).out := by
      decide +kernel
    obtain ⟨r, hr, -, hle⟩ := (hsafe.usable _ hout).inside
    rw [mem_singleton.mp hr] at hle
    revert hle
    decide
  all_goals decide

end IndexOS.TreeDiagram
