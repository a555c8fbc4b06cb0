import IndexOS.Lateran.FatSafety

/-!
# Which walks over a volume end

`dir_find`, `dir_free_slot` and `lateran_list_dir` look at one sector of a directory after the
other, until the chain ends, a slot begins with a zero or they have what they want.  Nothing keeps
them from going round and round a chain that comes back to itself; `free_chain`, `lateran_read_file`
and the walk of `dir_free_slot` to the last cluster have a guard against that.

Here the loops run as long as they are given fuel.  Their counter of 32 bits is a number: a chain
has fewer than 2 ^ 16 different clusters of at most 255 sectors, so they have seen all of it long
before it overflows.

* `rounds`, `Ends` — a loop, and that a function returns;
* `findLoop`, `freeSlotLoop`, `resolveParentLoop`, `freeLoop`, `lateranReadFile`, `lateranListDir`;
* `WalksEnd`, `Closes` — the property and the condition;
* `walksEnd_iff` — the main theorem.
-/

set_option autoImplicit false

namespace IndexOS.Lateran.Fat16

open List
open LittleEndian Testament

/-! ## Loops -/

/-- With enough fuel the function returns. -/
def Ends {α : Type} (f : Nat → Option α) : Prop := ∃ r n, ∀ fuel, n ≤ fuel → f fuel = some r

/-- `for (n = 0;; ++n)`: a round goes on with a new state, or it returns. -/
def rounds {σ α : Type} (body : Nat → σ → σ ⊕ α) : Nat → Nat → σ → Option α
  | 0, _, _ => none
  | fuel + 1, n, x =>
    match body n x with
    | .inl x => rounds body fuel (n + 1) x
    | .inr r => some r

section
variable {σ α β : Type} {f : Nat → Option α} {body : Nat → σ → σ ⊕ α}

theorem Ends.pure (r : α) : Ends fun _ => some r := ⟨r, 0, fun _ _ => rfl⟩

theorem Ends.succ (h : Ends fun fuel => f (fuel + 1)) : Ends f := by
  obtain ⟨r, n, h⟩ := h
  refine ⟨r, n + 1, fun fuel hfuel => ?_⟩
  obtain ⟨m, rfl⟩ := Nat.exists_eq_add_of_le' (Nat.le_of_add_left_le hfuel)
  exact h m (Nat.le_of_succ_le_succ hfuel)

theorem Ends.bind {k : α → Nat → Option β} (hf : Ends f) (hk : ∀ a, Ends (k a)) :
    Ends fun fuel => (f fuel).bind (k · fuel) := by
  obtain ⟨a, n, hf⟩ := hf
  obtain ⟨r, m, hk⟩ := hk a
  refine ⟨r, max n m, fun fuel hfuel => ?_⟩
  dsimp only
  rw [hf fuel (by omega), Option.bind_some, hk fuel (by omega)]

theorem ends_of_round {n : Nat} {x : σ}
    (h : ∀ x', body n x = .inl x' → Ends (rounds body · (n + 1) x')) :
    Ends (rounds body · n x) := by
  refine Ends.succ ?_
  simp only [rounds]
  cases hbody : body n x with
  | inl x' => exact h x' hbody
  | inr r => exact Ends.pure r

/-- A loop that returns in the round `N` at the latest. -/
theorem ends_of_stop {N : Nat} (hstop : ∀ x x', body N x ≠ .inl x') (x : σ) :
    Ends (rounds body · 0 x) := by
  suffices h : ∀ k ≤ N, ∀ x, Ends (rounds body · (N - k) x) by simpa using h N (Nat.le_refl N) x
  intro k
  induction k with
  | zero => exact fun _ x => ends_of_round fun x' hgoes => absurd hgoes (hstop x x')
  | succ k ih =>
    refine fun hk x => ends_of_round fun x' _ => ?_
    have hnext : N - (k + 1) + 1 = N - k := by omega
    rw [hnext]
    exact ih (by omega) x'

theorem stop_of_rounds {fuel n : Nat} {x : σ} {r : α} (h : rounds body fuel n x = some r) :
    ∃ m y, body m y = .inr r := by
  induction fuel generalizing n x with
  | zero => cases h
  | succ fuel ih =>
    rw [rounds] at h
    cases hbody : body n x with
    | inl x' =>
      rw [hbody] at h
      exact ih h
    | inr r' =>
      rw [hbody] at h
      exact ⟨n, x, by rw [hbody, Option.some.inj h]⟩

end

/-! ## The functions -/

variable (g : Layout) (d : Disk)

/-- A loop over the sectors of a directory. -/
def overSectors {σ α : Type} (loc : DirLoc) (look : Nat → σ → σ ⊕ α) (past : σ → α) (x : σ)
    (fuel : Nat) : Option α :=
  rounds (fun n x =>
    match dirNthSector g d loc n with
    | none => .inr (past x)
    | some sec => look sec x) fuel 0 x

/-- `dir_find` -/
def findLoop (loc : DirLoc) (name : CString) : Nat → Option (Option (Nat × Nat)) :=
  overSectors g d loc (fun sec _ =>
    match scanSector (d sec) name slotIndices with
    | .hit off => .inr (some (sec, off))
    | .ended => .inr none
    | .more => .inl ()) (fun _ => none) ()

/-- `dir_free_slot` -/
def freeSlotLoop (loc : DirLoc) (fuel : Nat) : Option (Option (Nat × Nat) × Disk) :=
  (overSectors g d loc (fun sec _ =>
    match freeIn (d sec) with
    | some off => .inr (some (sec, off))
    | none => .inl ()) (fun _ => none) () fuel).bind fun slot =>
      if slot.isSome ∨ loc.isRoot then some (slot, d)
      else
        let tail := tailLoop g d 100000 loc.cluster
        let (nc, d) := allocCluster g d
        some (if nc = 0 then (none, d) else (some (g.clusterFirstSector nc, 0), fatSet g d tail nc))

/-- The loop of `resolve_parent`. -/
def resolveLoop : Nat → DirLoc → CString → Option (Option (DirLoc × CString))
  | 0, _, _ => none
  | fuel + 1, cur, path =>
    let (comp, rest) := nextComponent path
    if rest = [] then some (if comp = [] then none else some (cur, comp))
    else
      (findLoop g d cur comp fuel).bind fun
        | none => some none
        | some (sec, off) =>
          if d sec (off + 11) &&& 0x10 = 0 then some none
          else resolveLoop fuel ⟨false, rd16 (d sec) (off + 26)⟩ rest

/-- `resolve_parent` -/
def resolveParentLoop (path : CString) (fuel : Nat) : Option (Option (DirLoc × CString)) :=
  resolveLoop g d fuel {} (path.dropWhile (· = slash))

/-- The entry that a path names. -/
def lookupLoop (path : CString) (fuel : Nat) : Option (Option (Nat × Nat)) :=
  (resolveParentLoop g d path fuel).bind fun
    | none => some none
    | some (loc, leaf) => findLoop g d loc leaf fuel

/-- A round of `free_chain`. -/
def freeRound (guard : Nat) (x : Disk × Nat) : (Disk × Nat) ⊕ Disk :=
  if 2 ≤ x.2 ∧ x.2 < 0xFFF8 ∧ guard < 100000 then .inl (fatSet g x.1 x.2 0, fatNext g x.1 x.2)
    else .inr x.1

/-- A round of `lateran_read_file`, with what has been read and the next cluster. -/
def readRound (want guard : Nat) (x : List UInt8 × Nat) : (List UInt8 × Nat) ⊕ List UInt8 :=
  if 2 ≤ x.2 ∧ x.2 < 0xFFF8 ∧ x.1.length < want ∧ guard < 100000 then
    let bytes := (range (g.sectorsPerCluster * kSector)).map fun i =>
      d (g.clusterFirstSector x.2 + i / kSector) (i % kSector)
    .inl (x.1 ++ bytes.take (want - x.1.length), fatNext g d x.2)
  else .inr x.1

/-- `lateran_read_file`, on FAT16: the bytes, or -1 -/
def lateranReadFile (path : CString) (cap fuel : Nat) : Option (Option (List UInt8)) :=
  (lookupLoop g d path fuel).bind fun
    | none => some none
    | some (sec, off) =>
      if d sec (off + 11) &&& 0x10 ≠ 0 then some none
      else (rounds (readRound g d (min (rd32 (d sec) (off + 28)) cap)) fuel 0
        ([], rd16 (d sec) (off + 26))).bind fun bytes => some (some bytes)

/-- `LateranEntry`; the owner is 0 -/
structure LateranEntry where
  name : CString
  firstCluster : Nat
  size : Nat
  isDir : Bool
  mode : Nat

def entryAt (sector : Buf) (off : Nat) : LateranEntry :=
  let attr := sector (off + 11)
  let base := if attr &&& 0x10 ≠ 0 then 0o40755 else 0o100644
  ⟨format83 (rawName sector off), rd16 sector (off + 26), rd32 sector (off + 28), attr &&& 0x10 ≠ 0,
    if attr &&& 0x01 ≠ 0 then base - (base &&& 0o222) else base⟩

/-- The inner loop of `lateran_list_dir`; when there is no room left, the outer one ends too. -/
def listSector (sector : Buf) (max : Nat) :
    List Nat → List LateranEntry → List LateranEntry ⊕ List LateranEntry
  | [], out => if max ≤ out.length then .inr out else .inl out
  | e :: es, out =>
    let off := e * 32
    let attr := sector (off + 11)
    if max ≤ out.length ∨ sector off = 0x00 then .inr out
    else if sector off = 0xE5 ∨ attr = 0x0F ∨ attr &&& 0x08 ≠ 0 then listSector sector max es out
    else listSector sector max es (out ++ [entryAt sector off])

/-- The loops of `lateran_list_dir`. -/
def listLoop (loc : DirLoc) (max : Nat) : Nat → Option (List LateranEntry) :=
  overSectors g d loc (fun sec => listSector (d sec) max slotIndices) id []

/-- `lateran_list_dir`, on FAT16 -/
def lateranListDir (path : CString) (max fuel : Nat) : Option (List LateranEntry) :=
  if path.dropWhile (· = slash) = [] then listLoop g d {} max fuel
  else
    (lookupLoop g d path fuel).bind fun
      | none => some []
      | some (sec, off) =>
        if d sec (off + 11) &&& 0x10 = 0 then some []
        else listLoop g d ⟨false, rd16 (d sec) (off + 26)⟩ max fuel

/-! ## The property and the condition -/

structure WalksEnd : Prop where
  find : ∀ loc name, Ends (findLoop g d loc name)
  slot : ∀ loc, Ends (freeSlotLoop g d loc)
  list : ∀ path max, Ends (lateranListDir g d path max)
  read : ∀ path cap, Ends (lateranReadFile g d path cap)
  free : ∀ cluster, Ends (rounds (freeRound g) · 0 (d, cluster))
  resolve : ∀ path, Ends (resolveParentLoop g d path)

/-- The chain from `c` ends, or some slot in one of its clusters begins with a zero. -/
def Closes (c : Nat) : Prop :=
  ∃ n, ∀ c', walkChain g d n c = some c' →
    ∃ s < g.sectorsPerCluster, ∃ e < 16, d (g.clusterFirstSector c' + s) (e * 32) = 0

/-! ## A sector with an end mark -/

variable {g d} {sector : Buf} {es : List Nat} {c : Nat}

/-- Some slot begins with a zero. -/
def Marked (sector : Buf) (es : List Nat) : Prop := ∃ e ∈ es, sector (e * 32) = 0

theorem Marked.tail {e : Nat} (h : Marked sector (e :: es)) (hne : sector (e * 32) ≠ 0) :
    Marked sector es := by
  simpa [Marked, hne] using h

theorem Marked.scanSector {name : CString} (h : Marked sector es) :
    scanSector sector name es ≠ .more := by
  induction es with
  | nil => simp [Marked] at h
  | cons e es ih =>
    rw [Fat16.scanSector]
    split
    · simp
    next hne =>
      have hrest := ih (h.tail hne)
      split
      · exact hrest
      split
      · exact hrest
      split
      · simp
      · exact hrest

theorem Marked.freeIn (h : Marked sector slotIndices) : freeIn sector ≠ none := by
  obtain ⟨e, he, hzero⟩ := h
  exact fun hnone => freeIn_none hnone e (mem_slotIndices.1 he) (Or.inl hzero)

theorem Marked.listSector {max : Nat} {out out' : List LateranEntry} (h : Marked sector es) :
    listSector sector max es out ≠ .inl out' := by
  induction es generalizing out with
  | nil => simp [Marked] at h
  | cons e es ih =>
    rw [Fat16.listSector]
    split
    · simp
    next hne =>
      have hrest := h.tail fun hzero => hne (Or.inr hzero)
      split <;> exact ih hrest

/-- A name that no entry has. -/
def longName : CString := replicate 13 0x41

theorem format83_length (sector : Buf) (off : Nat) :
    (format83 (rawName sector off)).length ≤ 12 := by
  have hraw : (rawName sector off).length = 11 := by simp [rawName]
  have hbase := (((rawName sector off).take 8).takeWhile_sublist (· ≠ blank)).length_le
  have hext := (((rawName sector off).drop 8).takeWhile_sublist (· ≠ blank)).length_le
  rw [length_take] at hbase
  rw [length_drop] at hext
  refine (takeWhile_sublist _).length_le.trans ?_
  rw [length_append]
  split
  · simp only [length_nil]
    omega
  · simp only [length_cons]
    omega

theorem marked_of_scanSector (h : scanSector sector longName es ≠ .more) : Marked sector es := by
  induction es with
  | nil => exact absurd rfl h
  | cons e es ih =>
    have hnot : ¬ ciEqual (format83 (rawName sector (e * 32))) longName = true := fun heq => by
      have hlen := congrArg length (of_decide_eq_true heq)
      have hle := format83_length sector (e * 32)
      simp only [length_map, longName, length_replicate] at hlen
      omega
    rw [scanSector] at h
    split at h
    next hzero => exact ⟨e, mem_cons_self, hzero⟩
    have hrest : scanSector sector longName es ≠ .more := by
      split at h
      · exact h
      split at h <;> exact h
    obtain ⟨e', he', hzero⟩ := ih hrest
    exact ⟨e', mem_cons_of_mem _ he', hzero⟩

/-! ## Chains -/

/-- Who looks at the `n`-th sector does not go on. -/
def Stops (g : Layout) (d : Disk) (loc : DirLoc) (n : Nat) : Prop :=
  ∀ sec, dirNthSector g d loc n = some sec → Marked (d sec) slotIndices

theorem Closes.stops (h : Closes g d c) (hc : 2 ≤ c ∧ c < 0xFFF8) :
    ∃ N, Stops g d ⟨false, c⟩ N := by
  obtain ⟨n, hn⟩ := h
  have hpos := g.sectorsPerCluster_pos
  cases hwalk : walkChain g d n c with
  | none =>
    refine ⟨n * g.sectorsPerCluster, fun sec hsec => ?_⟩
    rw [dirNthSector_walk hc, Nat.mul_div_cancel _ hpos, hwalk] at hsec
    cases hsec
  | some c' =>
    obtain ⟨s, hs, e, he, hzero⟩ := hn c' hwalk
    refine ⟨s + n * g.sectorsPerCluster, fun sec hsec => ⟨e, mem_slotIndices.2 he, ?_⟩⟩
    rw [dirNthSector_walk hc, Nat.add_mul_div_right _ _ hpos, Nat.add_mul_mod_self_right,
      Nat.div_eq_of_lt hs, Nat.mod_eq_of_lt hs, Nat.zero_add, hwalk] at hsec
    rwa [← Option.some.inj hsec]

/-- A directory in which the search for `longName` ends. -/
theorem closes_of_find (hc : 2 ≤ c ∧ c < 0xFFF8) (h : Ends (findLoop g d ⟨false, c⟩ longName)) :
    Closes g d c := by
  obtain ⟨r, fuel, hfuel⟩ := h
  obtain ⟨n, x, hround⟩ := stop_of_rounds (hfuel fuel (Nat.le_refl _))
  refine ⟨n / g.sectorsPerCluster, fun c' hc' =>
    ⟨n % g.sectorsPerCluster, Nat.mod_lt _ g.sectorsPerCluster_pos, ?_⟩⟩
  rw [dirNthSector_walk hc, hc'] at hround
  have hscan : scanSector (d (g.clusterFirstSector c' + n % g.sectorsPerCluster)) longName
    slotIndices ≠ .more :=
    fun hmore => by simp [hmore] at hround
  obtain ⟨e, he, hzero⟩ := marked_of_scanSector hscan
  exact ⟨e, mem_slotIndices.1 he, hzero⟩

/-! ## Every walk ends -/

theorem nextComponent_lt (path : CString) (h : (nextComponent path).2 ≠ []) :
    (nextComponent path).2.length < path.length := by
  cases path with
  | nil => exact absurd rfl h
  | cons a rest =>
    rw [nextComponent]
    by_cases ha : a = slash
    · subst ha
      simpa using Nat.lt_succ_of_le (dropWhile_sublist _).length_le
    · refine Nat.lt_of_le_of_lt (dropWhile_sublist _).length_le ?_
      have hpos : (((a :: rest).takeWhile (· ≠ slash)).take 15).length ≠ 0 := by simp [ha]
      rw [length_drop, length_cons]
      omega

section
variable (hstops : ∀ loc, ∃ N, Stops g d loc N)
include hstops

theorem overSectors_ends {σ α : Type} (loc : DirLoc) {look : Nat → σ → σ ⊕ α} {past : σ → α} {x : σ}
    (hlook : ∀ sec x x', Marked (d sec) slotIndices → look sec x ≠ .inl x') :
    Ends (overSectors g d loc look past x) := by
  obtain ⟨N, hstop⟩ := hstops loc
  refine ends_of_stop (N := N) (fun x x' hround => ?_) x
  cases hsec : dirNthSector g d loc N with
  | none => simp [hsec] at hround
  | some sec =>
    rw [hsec] at hround
    exact hlook sec x x' (hstop sec hsec) hround

theorem findLoop_ends (loc : DirLoc) (name : CString) : Ends (findLoop g d loc name) := by
  refine overSectors_ends hstops loc fun sec x x' hmark hround => ?_
  split at hround
  · cases hround
  · cases hround
  next hmore => exact hmark.scanSector hmore

theorem listLoop_ends (loc : DirLoc) (max : Nat) : Ends (listLoop g d loc max) :=
  overSectors_ends hstops loc fun _ _ _ hmark => hmark.listSector

theorem resolveLoop_ends (cur : DirLoc) (path : CString) : Ends (resolveLoop g d · cur path) := by
  induction hn : path.length using Nat.strong_induction_on generalizing cur path with
  | _ n ih =>
    refine Ends.succ ?_
    simp only [resolveLoop]
    split
    · exact Ends.pure _
    next hrest =>
      refine (findLoop_ends hstops cur _).bind fun entry => ?_
      cases entry with
      | none => exact Ends.pure _
      | some place =>
        dsimp only
        split
        · exact Ends.pure _
        · exact ih _ (hn ▸ nextComponent_lt path hrest) _ _ rfl

theorem lookupLoop_ends (path : CString) : Ends (lookupLoop g d path) := by
  refine (resolveLoop_ends hstops {} _).bind fun parent => ?_
  cases parent with
  | none => exact Ends.pure _
  | some place => exact findLoop_ends hstops place.1 place.2

theorem walksEnd_of_stops : WalksEnd g d where
  find := findLoop_ends hstops
  slot loc := by
    refine (overSectors_ends hstops loc fun sec x x' hmark hround => ?_).bind fun slot => ?_
    · split at hround
      · cases hround
      next hnone => exact hmark.freeIn hnone
    · split <;> exact Ends.pure _
  list path max := by
    unfold lateranListDir
    split
    · exact listLoop_ends hstops {} max
    refine (lookupLoop_ends hstops path).bind fun entry => ?_
    cases entry with
    | none => exact Ends.pure _
    | some place =>
      dsimp only
      split
      · exact Ends.pure _
      · exact listLoop_ends hstops _ max
  read path cap := by
    refine (lookupLoop_ends hstops path).bind fun entry => ?_
    cases entry with
    | none => exact Ends.pure _
    | some place =>
      dsimp only
      split
      · exact Ends.pure _
      · refine (ends_of_stop (N := 100000) (fun x x' hround => ?_) _).bind fun bytes => Ends.pure _
        rw [readRound, if_neg (by omega)] at hround
        cases hround
  free cluster := by
    refine ends_of_stop (N := 100000) (fun x x' hround => ?_) _
    rw [freeRound, if_neg (by omega)] at hround
    cases hround
  resolve path := resolveLoop_ends hstops {} _

end

/-- **Main theorem.**  Every walk over a volume ends if and only if from every cluster on the chain
ends or comes to a slot that begins with a zero. -/
theorem walksEnd_iff (g : Layout) (d : Disk) :
    WalksEnd g d ↔ ∀ c, 2 ≤ c → c < 0xFFF8 → Closes g d c := by
  refine ⟨fun h c hlo hhi => closes_of_find ⟨hlo, hhi⟩ (h.find _ _),
    fun h => walksEnd_of_stops fun loc => ?_⟩
  obtain ⟨isRoot, c⟩ := loc
  cases isRoot with
  | true =>
    refine ⟨g.rootSectors, fun sec hsec => ?_⟩
    rw [dirNthSector, if_pos (Nat.le_refl _)] at hsec
    cases hsec
  | false =>
    by_cases hc : 2 ≤ c ∧ c < 0xFFF8
    · exact (h c hc.1 hc.2).stops hc
    · refine ⟨0, fun sec hsec => ?_⟩
      simp only [dirNthSector, Nat.zero_div, walkChain] at hsec
      rw [if_neg (by simp), if_pos (by omega)] at hsec
      cases hsec

/-- The cluster 2 is full of entries, and its own successor. -/
def loopDisk : Disk := fun s i => if s = 1 ∧ i = 4 then 2 else if s = 4 then 0x41 else 0

theorem not_walksEnd_loopDisk : ¬ WalksEnd (smallLayout 1) loopDisk := by
  intro h
  have hwalk : ∀ n, walkChain (smallLayout 1) loopDisk n 2 = some 2 := fun n => by
    induction n with
    | zero => rfl
    | succ n ih => exact ih
  obtain ⟨n, hn⟩ := closes_of_find (by omega) (h.find ⟨false, 2⟩ longName)
  obtain ⟨s, hs, e, -, hzero⟩ := hn 2 (hwalk n)
  obtain rfl : s = 0 := Nat.lt_one_iff.1 hs
  have hfirst : (smallLayout 1).clusterFirstSector 2 = 4 := rfl
  simp [loopDisk, hfirst] at hzero

end IndexOS.Lateran.Fat16
