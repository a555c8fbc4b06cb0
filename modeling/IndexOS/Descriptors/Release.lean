import IndexOS.Descriptors.Books

/-!
# Releasing a descriptor

`linux_release_fd_backend` drops a reference, and the last reference of a channel drops those in
flight in it, and so on.  `releaseFdBackend_spec` says that this keeps the books balanced, whatever
is in flight where, as long as no listener is closed on which connections wait: such a connection
has one reference that only its queue knows about, and nothing drops it.

* `Anchored` — a set of objects that holds each other up: every listener with waiting connections is
  in it, and each of its objects is named by an entry of a table, by an accept queue, by a
  descriptor that will be installed, or in flight in a channel of the set.  No object of the set is
  freed;
* `Good` — the slots are in order and the books are balanced;
* `dropPending_spec`, `releaseFdBackend_spec` — the loop and the recursion.  A dying channel has no
  reference left, so that it is not closed again, and the recursion ends when all channels are
  dying.
-/

set_option autoImplicit false

namespace IndexOS.Descriptors

open Finset

/-- The objects in `S` hold each other up, with the descriptors in `K` that will be installed. -/
structure Anchored (P : Fin kMaxEspers → Proc) (s : State) (K : List Fd) (S : Set Obj) : Prop where
  listeners : ∀ o, 0 < waiting s o → o ∈ S
  kept : ∀ o ∈ S, 0 < named P o ∨ 0 < queued s o ∨ 0 < inHand o K ∨
    ∃ c, Obj.channel c ∈ S ∧ 0 < (s.channels c).carries o

/-- The slots are in order and the books are balanced. -/
structure Good (P : Fin kMaxEspers → Proc) (s : State) (Z : Finset (Fin kMaxChannels))
    (D : List Fd) : Prop where
  sound : Sound s Z
  balanced : Balanced P s Z D

variable {s s' : State} {o o' : Obj} {f : Fd} {D K : List Fd} {Z : Finset (Fin kMaxChannels)}
  {P Q : Fin kMaxEspers → Proc} {S : Set Obj} {i : Fin kMaxChannels}

theorem Anchored.congr (h : Anchored P s K S) (hp : SamePlaces s s') : Anchored P s' K S where
  listeners o ho := h.listeners o (hp.waiting_eq o ▸ ho)
  kept o ho := by
    simp only [hp.queued_eq, hp.carries_eq]
    exact h.kept o ho

/-- An object that is held up has a place, also with more entries in the tables. -/
theorem Anchored.places_pos (h : Anchored Q s [] S) (hPQ : ∀ o, named Q o ≤ named P o)
    (hZ : ∀ z ∈ Z, Obj.channel z ∉ S) (ho : o ∈ S) :
    0 < named P o + inFlight s Z o + queued s o := by
  rcases h.kept o ho with hn | hq | hk | ⟨c, hc, hpos⟩
  · have := hPQ o
    omega
  · omega
  · exact absurd hk (Nat.lt_irrefl 0)
  · have hle : (s.channels c).carries o ≤ inFlight s Z o := by
      have := le_tally (fun i (c : Channel) => if i ∈ Z then 0 else c.carries o) s.channels c
      rwa [if_neg (fun hz => hZ c hz hc)] at this
    omega

namespace Good

section
variable (h : Good P s Z (f :: D))
include h

theorem refs_pos (hf : f.names = some o) : 0 < refs s o := by
  rw [h.balanced o, inHand_cons, naming_self hf]
  omega

/-- A descriptor in hand that names nothing is dropped. -/
theorem skip (hf : f.names = none) : Good P s Z D where
  sound := h.sound
  balanced o := by
    rw [h.balanced o, inHand_cons, naming_none hf, Nat.zero_add]

/-- The reference of a descriptor in hand is dropped. -/
theorem drop (hf : f.names = some o)
    (hr : Recount s s' o (refs s o - 1)) (hs : Sound s' Z) : Good P s' Z D where
  sound := hs
  balanced o' := by
    have hb := h.balanced o'
    rw [inHand_cons, naming_of hf] at hb
    rw [hr.refs_eq, hr.inFlight_eq, hr.queued_eq]
    by_cases ho : o' = o
    · subst ho
      rw [if_pos rfl] at hb ⊢
      omega
    · rw [if_neg ho] at hb ⊢
      omega

end

/-- A reference is taken for a descriptor in hand. -/
theorem take (h : Good P s Z D) (hf : f.names = some o) (hr : Recount s s' o (refs s o + 1))
    (hs : Sound s' Z) : Good P s' Z (f :: D) where
  sound := hs
  balanced o' := by
    have hb := h.balanced o'
    rw [inHand_cons, naming_of hf, hr.refs_eq, hr.inFlight_eq, hr.queued_eq]
    by_cases ho : o' = o
    · subst ho
      rw [if_pos rfl, if_pos rfl]
      omega
    · rw [if_neg ho, if_neg ho]
      omega

theorem congr (h : Good P s Z D) (hp : SamePlaces s s') (hr : ∀ o, refs s' o = refs s o)
    (hs : Sound s' Z) : Good P s' Z D where
  sound := hs
  balanced o := by rw [hr, hp.inFlight_eq, hp.queued_eq, h.balanced o]

end Good

/-! ## A channel dies -/

/-- A channel is left out of what is in flight, or carries nothing. -/
theorem inFlight_insert (s : State) (Z : Finset (Fin kMaxChannels)) (i : Fin kMaxChannels)
    (o : Obj) : inFlight s (insert i Z) o = inFlight (s.setChannel i {}) Z o := by
  apply tally_congr
  intro j
  by_cases hj : j = i
  · subst hj
    simp [State.setChannel, Channel.carries]
  · simp [State.setChannel, hj]

theorem inFlight_dying (hi : i ∉ Z) (o : Obj) :
    inFlight s (insert i Z) o + (s.channels i).carries o = inFlight s Z o := by
  have h := tally_update (fun i (c : Channel) => if i ∈ Z then 0 else c.carries o) s.channels i {}
  rw [if_neg hi, if_neg hi] at h
  have hnone : ({} : Channel).carries o = 0 := rfl
  rw [hnone, Nat.add_zero] at h
  rw [inFlight_insert]
  exact h

/-- The last reference of a channel goes: what is in flight in it is now in hand. -/
theorem Good.die (h : Good P s Z (f :: D)) (hf : f.names = some (.channel i)) (hi : i ∉ Z)
    (hone : refs s (.channel i) = 1) (hr : Recount s s' (.channel i) 0)
    (hs : Sound s' (insert i Z)) :
    Good P s' (insert i Z) ((s.channels i).scmPending.map Prod.fst ++ D) where
  sound := hs
  balanced o' := by
    have hb := h.balanced o'
    have hd := inFlight_dying (s := s) hi o'
    rw [inHand_cons, naming_of hf] at hb
    rw [hr.refs_eq, hr.inFlight_eq, hr.queued_eq, inHand_append]
    unfold Channel.carries at hd
    by_cases ho : o' = .channel i
    · subst ho
      rw [if_pos rfl] at hb ⊢
      omega
    · rw [if_neg ho] at hb ⊢
      omega

theorem queued_setChannel_same {c : Channel} (h : c.acceptQueue = (s.channels i).acceptQueue) :
    queued (s.setChannel i c) o = queued s o := by
  refine congrArg₂ (· + ·) rfl (tally_same ?_)
  rw [h]

/-- The slot of a dead channel is cleared. -/
theorem Good.clear (h : Good P s (insert i Z) D) (hi : i ∉ Z) : Good P (s.setChannel i {}) Z D where
  sound := h.sound.setChannel ⟨by simp [hi], by simp, by simp, by simp, by simp, by simp, by simp⟩
    fun j hj => by simp [hj]
  balanced o := by
    have hok := h.sound.channels i
    have hzero := hok.dead (mem_insert_self i Z)
    rw [refs_setChannel, ← inFlight_insert, queued_setChannel_same (hok.idle hzero).symm,
      ← h.balanced o]
    split
    · rename_i ho
      subst ho
      exact hzero.symm
    · rfl

/-- A channel is written: if it holds things up, then as many as before. -/
theorem Anchored.setChannel (h : Anchored P s K S) {c : Channel}
    (hq : c.acceptQueue = (s.channels i).acceptQueue)
    (hc : Obj.channel i ∈ S → ∀ o, (s.channels i).carries o ≤ c.carries o) :
    Anchored P (s.setChannel i c) K S where
  listeners o ho := by
    apply h.listeners o
    cases o with
    | channel j =>
      by_cases hj : j = i
      · subst hj
        simpa [waiting, State.setChannel, hq] using ho
      · simpa [waiting, State.setChannel, hj] using ho
    | _ => exact ho
  kept o ho := by
    rw [queued_setChannel_same hq]
    refine (h.kept o ho).imp_right (Or.imp_right (Or.imp_right ?_))
    rintro ⟨j, hj, hpos⟩
    refine ⟨j, hj, ?_⟩
    by_cases hji : j = i
    · subst hji
      simpa [State.setChannel] using hpos.trans_le (hc hj o)
    · simpa [State.setChannel, hji] using hpos

/-! ## The loop and the recursion -/

/-- What releasing one descriptor does, and what it leaves alone.  The entries `Q` that hold things
up may be fewer than those in the tables. -/
structure Released (P Q : Fin kMaxEspers → Proc) (S : Set Obj) (Z : Finset (Fin kMaxChannels))
    (D : List Fd) (s s' : State) : Prop where
  good : Good P s' Z D
  anchored : Anchored Q s' [] S
  procs : s'.procs = s.procs
  dying : ∀ z ∈ Z, (s'.channels z).scmPending = (s.channels z).scmPending

/-- A release function that does what it should while the channels in `Z` are dying. -/
def Releases (P Q : Fin kMaxEspers → Proc) (S : Set Obj) (Z : Finset (Fin kMaxChannels))
    (release : State → Fd → State) : Prop :=
  ∀ s f D, Good P s Z (f :: D) → Anchored Q s [] S → Released P Q S Z D s (release s f)

theorem dropPending_spec {release : State → Fd → State} (hrel : Releases P Q S Z release)
    (hi : i ∈ Z)
    {pending : List (Fd × Nat)} (m : Nat) :
    ∀ (k : Nat) (s : State), pending.length ≤ k + m → (s.channels i).scmPending = pending →
      Good P s Z ((pending.drop k).map Prod.fst ++ D) → Anchored Q s [] S →
      Released P Q S Z D s (dropPending release i m k s) := by
  induction m with
  | zero =>
    intro k s hk _ hgood hanch
    rw [List.drop_eq_nil_of_le (by omega)] at hgood
    exact ⟨hgood, hanch, rfl, fun _ _ => rfl⟩
  | succ m ih =>
    intro k s hk hpend hgood hanch
    unfold dropPending
    rw [hpend]
    cases hget : pending[k]? with
    | none =>
      rw [List.drop_eq_nil_of_le (List.getElem?_eq_none_iff.1 hget)] at hgood
      exact ⟨hgood, hanch, rfl, fun _ _ => rfl⟩
    | some x =>
      obtain ⟨hlt, hx⟩ := List.getElem?_eq_some_iff.1 hget
      rw [List.drop_eq_getElem_cons hlt, hx, List.map_cons] at hgood
      have h1 := hrel s x.1 _ hgood hanch
      have h2 := ih (k + 1) (release s x.1) (by omega) ((h1.dying i hi).trans hpend) h1.good
        h1.anchored
      exact ⟨h2.good, h2.anchored, h2.procs.trans h1.procs,
        fun z hz => (h2.dying z hz).trans (h1.dying z hz)⟩

/-- The peer learns that a channel is gone, which touches no count and no place. -/
theorem dropPeer_spec (hs : Sound s Z) (c : Channel) :
    Sound (dropPeer s c) Z ∧ SamePlaces s (dropPeer s c) ∧ ∀ o, refs (dropPeer s c) o =
      refs s o := by
  unfold dropPeer
  cases c.peer with
  | none => exact ⟨hs, ⟨fun _ => rfl, fun _ => rfl, fun _ => rfl, rfl⟩, fun _ => rfl⟩
  | some j =>
    simp only
    split
    · have hok := hs.channels j
      have hr := recount_channel
        (c := { s.channels j with state := .peerGone, peer := none }) rfl rfl
      refine ⟨hs.setChannel ⟨hok.used, hok.dead, hok.idle, hok.empty, hok.queue, hok.backlog,
        hok.pending⟩ fun _ _ => Iff.rfl, hr.toSamePlaces, fun o => ?_⟩
      rw [hr.refs_eq]
      split
      · rename_i ho; rw [ho]; rfl
      · rfl
    · exact ⟨hs, ⟨fun _ => rfl, fun _ => rfl, fun _ => rfl, rfl⟩, fun _ => rfl⟩

/-- The last reference of a channel is dropped. -/
theorem incClose_last {release : State → Fd → State} (hrel : Releases P Q S (insert i Z) release)
    (hgood : Good P s Z (f :: D)) (hanch : Anchored Q s [] S) (hf : f.names = some (.channel i))
    (hi : i ∉ Z) (hiS : Obj.channel i ∉ S) (hone : (s.channels i).refs = 1) :
    Released P Q S Z D s (incClose release s i) := by
  have hok := hgood.sound.channels i
  have huse : (s.channels i).kind ≠ .free := hok.used.2 (Or.inl (by omega))
  have hq : (s.channels i).acceptQueue = [] := by
    by_contra hne
    exact hiS (hanch.listeners _ (List.length_pos_of_ne_nil hne))
  unfold incClose
  simp only [huse, hone, freeSlot]
  -- the count is 0 and the peer has been told
  generalize hs1 : s.setChannel i { s.channels i with refs := 0 } = s1
  have hr1 : Recount s s1 (.channel i) 0 := hs1 ▸ recount_channel rfl rfl
  have hsound1 : Sound s1 (insert i Z) := by
    subst hs1
    refine hgood.sound.setChannel ⟨?_, ?_, ?_, hok.empty, hok.queue, hok.backlog, hok.pending⟩ ?_
    · simp [huse]
    · simp
    · exact fun _ => hq
    · exact fun j hj => by simp [hj]
  obtain ⟨hsound2, hplaces2, hrefs2⟩ := dropPeer_spec hsound1 (s.channels i)
  generalize hs2 : dropPeer s1 (s.channels i) = s2 at hsound2 hplaces2 hrefs2
  have hgood2 : Good P s2 (insert i Z) ((s.channels i).scmPending.map Prod.fst ++ D) :=
    (hgood.die hf hi hone hr1 hsound1).congr hplaces2 hrefs2 hsound2
  have hanch2 : Anchored Q s2 [] S := (hanch.congr hr1.toSamePlaces).congr hplaces2
  have hpend2 : (s2.channels i).scmPending = (s.channels i).scmPending :=
    (hplaces2.pending i).trans (hr1.pending i)
  -- what was in flight is released, and the slot is cleared
  have hloop := dropPending_spec hrel (mem_insert_self i Z) kChannelScmMax 0 s2
    (by simpa using hok.pending) hpend2 (by simpa using hgood2) hanch2
  have hok3 := hloop.good.sound.channels i
  have hq3 := hok3.idle (hok3.dead (mem_insert_self i Z))
  refine ⟨hloop.good.clear hi, hloop.anchored.setChannel hq3.symm fun hmem => absurd hmem hiS, ?_,
    fun z hz => ?_⟩
  · exact hloop.procs.trans (hplaces2.procs.trans hr1.procs)
  · have hne : z ≠ i := fun heq => hi (heq ▸ hz)
    have hz3 := hloop.dying z (mem_insert_of_mem hz)
    rw [hplaces2.pending, hr1.pending] at hz3
    simpa [State.setChannel, hne] using hz3

/-- A reference that is not the last one of a channel is dropped. -/
theorem incClose_more {release : State → Fd → State} (hgood : Good P s Z (f :: D))
    (hanch : Anchored Q s [] S) (hf : f.names = some (.channel i))
    (hmore : 1 < (s.channels i).refs) :
    Released P Q S Z D s (incClose release s i) := by
  have hok := hgood.sound.channels i
  have huse : (s.channels i).kind ≠ .free := hok.used.2 (Or.inl (by omega))
  unfold incClose
  simp only [huse, Nat.sub_pos_of_lt hmore]
  have hr : Recount s (s.setChannel i { s.channels i with refs := (s.channels i).refs - 1 })
    (.channel i) (refs s (.channel i) - 1) := recount_channel rfl rfl
  refine ⟨hgood.drop hf hr ?_, hanch.congr hr.toSamePlaces, rfl, fun z _ => hr.pending z⟩
  refine hgood.sound.setChannel ⟨?_, ?_, ?_, hok.empty, hok.queue, hok.backlog, hok.pending⟩
    fun _ _ => Iff.rfl
  · simp only [huse, ne_eq, not_false_iff, true_iff]
    exact Or.inl (by omega)
  · intro hz
    have := hok.dead hz
    omega
  · intro hzero
    simp only at hzero
    omega

theorem closeObj_releases (n : Nat) (hPQ : ∀ o, named Q o ≤ named P o)
    (hZ : ∀ z ∈ Z, Obj.channel z ∉ S) (hcard : kMaxChannels ≤ n + Z.card)
    (hdeep : ∀ m i, n = m + 1 → i ∉ Z → Obj.channel i ∉ S →
      Releases P Q S (insert i Z) (releaseFdBackend m))
    (hgood : Good P s Z (f :: D)) (hanch : Anchored Q s [] S) (hf : f.names = some o) :
    Released P Q S Z D s (closeObj n s o) := by
  have hpos := hgood.refs_pos hf
  -- an object that is held up has another reference
  have hheld : o ∈ S → 1 < refs s o := by
    intro ho
    have := hanch.places_pos hPQ hZ ho
    rw [hgood.balanced o, inHand_cons, naming_self hf]
    omega
  by_cases hchan : ∃ i, o = .channel i
  · obtain ⟨i, rfl⟩ := hchan
    have hiZ : i ∉ Z := fun hz => by
      have := (hgood.sound.channels i).dead hz
      simp only [refs] at hpos
      omega
    cases n with
    | zero =>
      have hall : Z = univ := by
        rw [← card_eq_iff_eq_univ, Fintype.card_fin]
        have := card_le_univ Z
        rw [Fintype.card_fin] at this
        omega
      exact absurd (hall ▸ mem_univ i) hiZ
    | succ m =>
      by_cases hone : (s.channels i).refs = 1
      · have hiS : Obj.channel i ∉ S := fun h => by
          have := hheld h
          simp only [refs] at this
          omega
        exact incClose_last (hdeep m i rfl hiZ hiS) hgood hanch hf hiZ hiS hone
      · exact incClose_more hgood hanch hf (by simp only [refs] at hpos; omega)
  · have hwait : refs s o = 1 → waiting s o = 0 := by
      intro hone
      by_contra hne
      have := hheld (hanch.listeners o (Nat.pos_of_ne_zero hne))
      omega
    obtain ⟨hs, hr⟩ := closeObj_spec hgood.sound hpos (fun i hi => hchan ⟨i, hi⟩) hwait n
    exact ⟨hgood.drop hf hr hs, hanch.congr hr.toSamePlaces, hr.procs, fun z _ => hr.pending z⟩

/-- **Main theorem of this module.**  Releasing a descriptor keeps the books balanced when the
listeners with waiting connections are held up, whatever is in flight. -/
theorem releaseFdBackend_spec (hPQ : ∀ o, named Q o ≤ named P o) (n : Nat) :
    ∀ Z : Finset (Fin kMaxChannels), (∀ z ∈ Z, Obj.channel z ∉ S) → kMaxChannels ≤ n + Z.card →
      Releases P Q S Z (releaseFdBackend n) := by
  -- the induction is on the depth: each level has one more dying channel
  induction n using Nat.strong_induction_on with
  | _ n ih =>
    intro Z hZ hcard s f D hgood hanch
    rw [releaseFdBackend_eq]
    cases hf : f.names with
    | none => exact ⟨hgood.skip hf, hanch, rfl, fun _ _ => rfl⟩
    | some o =>
      refine closeObj_releases n hPQ hZ hcard ?_ hgood hanch hf
      intro m i hm hi hiS
      refine ih m (by omega) (insert i Z) ?_ ?_
      · intro z hz
        rcases mem_insert.1 hz with rfl | hz
        · exact hiS
        · exact hZ z hz
      · rw [card_insert_of_notMem hi]
        omega

/-- Releasing a descriptor between two calls, when no channel is dying. -/
theorem release_spec (hPQ : ∀ o, named Q o ≤ named P o) (hgood : Good P s ∅ (f :: D))
    (hanch : Anchored Q s [] S) :
    Released P Q S ∅ D s (release s f) :=
  releaseFdBackend_spec hPQ kDepth ∅ (by simp) (by simp [kDepth]) s f D hgood hanch

end IndexOS.Descriptors
