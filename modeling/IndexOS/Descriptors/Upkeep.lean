import IndexOS.Descriptors.Release

/-!
# The calls keep the books

Each call of `IndexOS.Descriptors.Calls` is taken apart into moves of one descriptor: an object is
allocated and its descriptor is in hand, a reference is taken, a descriptor is exchanged with an
entry of a table, put in flight, queued, or released.  For each move there is one lemma, and a call
keeps the books because its moves do.

* `Good.exchange` — an entry of a table and a descriptor in hand change places;
* `Good.share` — `linux_ref_fd_backend` of a descriptor that some table names;
* `Upkept` — what a call guarantees, proved for the calls that need no condition;
* `releaseWhere_spec` — the loops of `execve` and of a process that ends.
-/

set_option autoImplicit false

namespace IndexOS.Descriptors

open List

variable {D' : List Fd} {lo : Nat} {j : Fin kMaxChannels}

variable {s s' : State} {o : Obj} {f : Fd} {D K : List Fd} {Z : Finset (Fin kMaxChannels)}
  {P Q : Fin kMaxEspers → Proc} {S : Set Obj} {p : Fin kMaxEspers} {i : Fin kMaxFds}

/-! ## Entries of tables -/

/-- The tables with one entry replaced. -/
def withFd (P : Fin kMaxEspers → Proc) (p : Fin kMaxEspers) (i : Fin kMaxFds) (f : Fd) :
    Fin kMaxEspers → Proc :=
  Function.update P p { P p with fds := Function.update (P p).fds i f }

theorem setFd_procs (s : State) (p : Fin kMaxEspers) (i : Fin kMaxFds) (f : Fd) :
    (s.setFd p i f).procs = withFd s.procs p i f := rfl

@[simp] theorem withFd_live (P : Fin kMaxEspers → Proc) (p q : Fin kMaxEspers) (i : Fin kMaxFds)
    (f : Fd) : (withFd P p i f q).live = (P q).live := by
  by_cases hq : q = p
  · subst hq; simp [withFd]
  · simp [withFd, hq]

theorem withFd_fds (P : Fin kMaxEspers → Proc) (p : Fin kMaxEspers) (i : Fin kMaxFds) (f : Fd) :
    (withFd P p i f p).fds = Function.update (P p).fds i f := by simp [withFd]

/-- The books do not depend on the tables of the state itself. -/
theorem Good.procs (h : Good P s Z D) (R : Fin kMaxEspers → Proc) :
    Good P { s with procs := R } Z D :=
  ⟨⟨h.sound.pipes, h.sound.antennas, h.sound.channels, h.sound.relays, h.sound.events⟩, h.balanced⟩

theorem Anchored.procs (h : Anchored P s K S) (R : Fin kMaxEspers → Proc) :
    Anchored P { s with procs := R } K S := by
  refine ⟨fun o ho => h.listeners o ?_, h.kept⟩
  cases o <;> exact ho

theorem Proc.naming_update (x : Proc) (hl : x.live = true) (i : Fin kMaxFds) (f : Fd) (o : Obj) :
    Proc.naming o { x with fds := Function.update x.fds i f } + Descriptors.naming o (x.fds i) =
      Proc.naming o x + Descriptors.naming o f := by
  simp only [Proc.naming, hl]
  exact tally_update (fun _ => Descriptors.naming o) x.fds i f

theorem named_withFd (hl : (P p).live = true) (i : Fin kMaxFds) (f : Fd) (o : Obj) :
    named (withFd P p i f) o + naming o ((P p).fds i) = named P o + naming o f := by
  have h1 : named (withFd P p i f) o + Proc.naming o (P p) =
      named P o + Proc.naming o ⟨(P p).live, Function.update (P p).fds i f⟩ :=
    tally_update (fun _ => Proc.naming o) P p _
  have h2 := Proc.naming_update (P p) hl i f o
  omega

theorem naming_le_named (hl : (P p).live = true) (i : Fin kMaxFds) (o : Obj) :
    naming o ((P p).fds i) ≤ named P o := by
  have h1 := le_tally (fun _ => Proc.naming o) P p
  have h2 := le_tally (fun _ => naming o) (P p).fds i
  simp only [Proc.naming, hl] at h1
  exact Nat.le_trans h2 h1

/-- A descriptor in hand and an entry of a table change places. -/
theorem Good.exchange (h : Good P s Z (f :: D)) (hl : (P p).live = true) (i : Fin kMaxFds) :
    Good (withFd P p i f) s Z ((P p).fds i :: D) where
  sound := h.sound
  balanced o := by
    have hb := h.balanced o
    have hn := named_withFd hl i f o
    rw [inHand_cons] at hb ⊢
    omega

/-- A descriptor that names nothing may be in hand. -/
theorem Good.put (h : Good P s Z D) (hf : f.names = none) : Good P s Z (f :: D) where
  sound := h.sound
  balanced o := by rw [inHand_cons, naming_none hf, Nat.zero_add, h.balanced o]

theorem names_of_closed (h : f.kind = .closed) : f.names = none := by simp [Fd.names, h]

/-- A descriptor in hand is put into an entry that names nothing. -/
theorem Good.place (h : Good P s Z (f :: D)) (hl : (P p).live = true)
    (hnone : ((P p).fds i).names = none) : Good (withFd P p i f) s Z D :=
  (h.exchange hl i).skip hnone

/-- An entry is cleared, and its descriptor is in hand. -/
theorem Good.lift (h : Good P s Z D) (hl : (P p).live = true) (i : Fin kMaxFds) :
    Good (withFd P p i {}) s Z ((P p).fds i :: D) :=
  (h.put rfl).exchange hl i

/-- An entry is replaced by one that names the same. -/
theorem Good.rename (h : Good P s Z D) (hl : (P p).live = true) {f : Fd}
    (hf : f.names = ((P p).fds i).names) : Good (withFd P p i f) s Z D where
  sound := h.sound
  balanced o := by
    have hn := named_withFd hl i f o
    rw [show naming o f = naming o ((P p).fds i) by simp only [naming, hf]] at hn
    rw [h.balanced o]
    omega

theorem Anchored.place (h : Anchored P s (f :: K) S) (hl : (P p).live = true)
    (hnone : ((P p).fds i).names = none) : Anchored (withFd P p i f) s K S where
  listeners := h.listeners
  kept o ho := by
    have hn := named_withFd hl i f o
    rw [naming_none hnone] at hn
    have := h.kept o ho
    rw [inHand_cons] at this
    rcases this with h1 | h1 | h1 | h1
    · exact Or.inl (by omega)
    · exact Or.inr (Or.inl h1)
    · by_cases hf : 0 < naming o f
      · exact Or.inl (by omega)
      · exact Or.inr (Or.inr (Or.inl (by omega)))
    · exact Or.inr (Or.inr (Or.inr h1))

/-! ## Bounds -/

theorem Proc.naming_le (o : Obj) (x : Proc) : Proc.naming o x ≤ kMaxFds := by
  unfold Proc.naming
  split
  · have := tally_le (fun i => Descriptors.naming_le o (x.fds i))
    rwa [Fintype.card_fin] at this
  · exact Nat.zero_le _

theorem named_le (P : Fin kMaxEspers → Proc) (o : Obj) : named P o ≤ kMaxEspers * kMaxFds := by
  have := tally_le (fun i => Proc.naming_le o (P i))
  rwa [Fintype.card_fin] at this

theorem inFlight_le (h : Sound s Z) (o : Obj) : inFlight s Z o ≤ kMaxChannels * kChannelScmMax := by
  have : ∀ i, (if i ∈ Z then 0 else (s.channels i).carries o) ≤ kChannelScmMax := by
    intro i
    split
    · exact Nat.zero_le _
    · have := inHand_le o ((s.channels i).scmPending.map Prod.fst)
      rw [length_map] at this
      exact Nat.le_trans this (h.channels i).pending
  have := tally_le this
  rwa [Fintype.card_fin] at this

theorem queued_le (h : Sound s Z) (o : Obj) :
    queued s o ≤ kMaxAntennas * kAcceptCap + kMaxChannels * kAcceptCap := by
  have ha : ∀ i, ((s.antennas i).acceptQueue.map Obj.socket).count o ≤ kAcceptCap := fun i => by
    have := count_le_length (a := o) (l := (s.antennas i).acceptQueue.map Obj.socket)
    rw [length_map] at this
    exact Nat.le_trans this (h.antennas i).queue
  have hc : ∀ i, ((s.channels i).acceptQueue.map Obj.channel).count o ≤ kAcceptCap := fun i => by
    have := count_le_length (a := o) (l := (s.channels i).acceptQueue.map Obj.channel)
    rw [length_map] at this
    exact Nat.le_trans this (h.channels i).queue
  have ha := tally_le ha
  have hc := tally_le hc
  exact Nat.add_le_add ha hc

/-- No count comes near the end of its range. -/
theorem Good.refs_lt (h : Good P s Z D) (hD : D.length ≤ 2 * kChannelScmMax) (o : Obj) :
    refs s o + 1 < 2 ^ 16 := by
  have h1 := named_le P o
  have h2 := inFlight_le h.sound o
  have h3 := queued_le h.sound o
  have h4 := inHand_le o D
  rw [h.balanced o]
  simp only [kMaxEspers, kMaxFds, kMaxChannels, kMaxAntennas, kChannelScmMax, kAcceptCap] at *
  omega

/-! ## References -/

/-- A reference is taken for a descriptor that some table names. -/
theorem Good.share (h : Good P s Z D) (hD : D.length ≤ 2 * kChannelScmMax)
    (hf : ∀ o, f.names = some o → 0 < named P o) :
    Good P (refFdBackend s f) Z (f :: D) ∧ SamePlaces s (refFdBackend s f) := by
  rw [refFdBackend_eq]
  cases hn : f.names with
  | none => exact ⟨h.put hn, ⟨fun _ => rfl, fun _ => rfl, fun _ => rfl, rfl⟩⟩
  | some o =>
    have hpos : 0 < refs s o := by
      have := hf o hn
      rw [h.balanced o]
      omega
    obtain ⟨hs, hr⟩ := incObj_spec h.sound hpos (h.refs_lt hD o)
    exact ⟨h.take hn hr hs, hr.toSamePlaces⟩

/-- Between two calls the objects that have a reference hold each other up. -/
theorem Good.anchored (h : Good P s ∅ []) : Anchored P s [] {o | 0 < refs s o} where
  listeners o ho := by
    cases o with
    | socket i =>
      refine Nat.pos_of_ne_zero fun hz => ?_
      simp only [waiting, (h.sound.antennas i).idle hz] at ho
      exact absurd ho (Nat.lt_irrefl 0)
    | channel i =>
      refine Nat.pos_of_ne_zero fun hz => ?_
      simp only [waiting, (h.sound.channels i).idle hz] at ho
      exact absurd ho (Nat.lt_irrefl 0)
    | _ => exact absurd ho (Nat.lt_irrefl 0)
  kept o ho := by
    by_cases hn : 0 < named P o
    · exact Or.inl hn
    by_cases hq : 0 < queued s o
    · exact Or.inr (Or.inl hq)
    have hfl : 0 < inFlight s ∅ o := by
      have hb := h.balanced o
      have ho' : 0 < refs s o := ho
      rw [inHand_nil] at hb
      omega
    obtain ⟨c, hc⟩ := exists_of_tally_pos hfl
    simp only [Finset.notMem_empty] at hc
    refine Or.inr (Or.inr (Or.inr ⟨c, ?_, hc⟩))
    -- a channel that carries something is taken, and none is dying
    refine Nat.pos_of_ne_zero fun hz => ?_
    have hok := h.sound.channels c
    have hfree : (s.channels c).kind = .free := by
      by_contra hne
      have hz' : (s.channels c).refs = 0 := hz
      rcases hok.used.1 hne with hpos | hmem
      · omega
      · exact absurd hmem (Finset.notMem_empty c)
    rw [Channel.carries, hok.empty hfree] at hc
    exact absurd hc (Nat.lt_irrefl 0)

/-! ## New objects -/

@[simp] theorem slot_val {n : Nat} (i : Fin n) : slot n (some i.val) = some i := by
  simp [slot]

theorem SamePlaces.refl (s : State) : SamePlaces s s :=
  ⟨fun _ => rfl, fun _ => rfl, fun _ => rfl, rfl⟩

theorem SamePlaces.trans {s₁ s₂ s₃ : State} (h : SamePlaces s₁ s₂) (h' : SamePlaces s₂ s₃) :
    SamePlaces s₁ s₃ :=
  ⟨fun i => (h'.pending i).trans (h.pending i),
    fun i => (h'.antennaQueue i).trans (h.antennaQueue i),
    fun i => (h'.channelQueue i).trans (h.channelQueue i), h'.procs.trans h.procs⟩

section
variable (h : Good P s Z D)
include h

/-- A free socket becomes a new one with one reference. -/
theorem Good.newAntenna {j : Fin kMaxAntennas} (hfree : (s.antennas j).proto = .free) {a : Antenna}
    (hproto : a.proto ≠ .free) (hrefs : a.refs = 1) (hq : a.acceptQueue = [])
    (hback : a.backlog ≤ kAcceptCap)
    (hf : f.names = some (.socket j)) :
    Good P (s.setAntenna j a) Z (f :: D) ∧ SamePlaces s (s.setAntenna j a) := by
  have hok := h.sound.antennas j
  have hzero : (s.antennas j).refs = 0 :=
    h.sound.refs_idle (o := .socket j) (by simpa [busy] using hfree)
  have hr : Recount s (s.setAntenna j a) (.socket j) (refs s (.socket j) + 1) := by
    simpa only [refs, hzero, hrefs] using recount_socket (hq.trans (hok.idle hzero).symm)
  exact ⟨h.take hf hr
    (h.sound.setAntenna ⟨by simp [hproto, hrefs], fun _ => hq, by simp [hq], hback⟩),
    hr.toSamePlaces⟩

theorem antennaSocket_spec {proto : AntennaProto} {j : Fin kMaxAntennas} (hproto : proto ≠ .free)
    (hj : antennaSocket s proto = some (j, s')) (hf : f.names = some (.socket j)) :
    Good P s' Z (f :: D) ∧ SamePlaces s s' := by
  unfold antennaSocket at hj
  split at hj
  · cases hj
  · rename_i k hk
    obtain ⟨rfl, rfl⟩ := Prod.mk.inj (Option.some.inj hj)
    exact h.newAntenna (by simpa using find?_some hk) hproto rfl rfl (Nat.zero_le _) hf

/-- A free channel becomes a new one with one reference. -/
theorem Good.newChannel (hfree : (s.channels j).kind = .free) {c : Channel} (hkind : c.kind ≠ .free)
    (hrefs : c.refs = 1) (hq : c.acceptQueue = []) (hpend : c.scmPending = [])
    (hback : c.backlog ≤ kAcceptCap) (hf : f.names = some (.channel j)) :
    Good P (s.setChannel j c) Z (f :: D) ∧ SamePlaces s (s.setChannel j c) := by
  have hok := h.sound.channels j
  have hzero : (s.channels j).refs = 0 :=
    h.sound.refs_idle (o := .channel j) (by simpa [busy] using hfree)
  have hr : Recount s (s.setChannel j c) (.channel j) (refs s (.channel j) + 1) := by
    have := recount_channel (hq.trans (hok.idle hzero).symm)
      (hpend.trans (hok.empty hfree).symm)
    simpa only [refs, hzero, hrefs] using this
  refine ⟨h.take hf hr
    (h.sound.setChannel ⟨?_, fun hz => absurd hfree (hok.used.2 (Or.inr hz)), fun _ => hq,
    fun _ => hpend,
    by simp [hq], hback, by simp [hpend]⟩ fun _ _ => Iff.rfl), hr.toSamePlaces⟩
  simp [hkind, hrefs]

theorem incSocket_spec {kind : ChannelKind} (hkind : kind ≠ .free)
    (hj : incSocket s kind = some (j, s'))
    (hf : f.names = some (.channel j)) : Good P s' Z (f :: D) ∧ SamePlaces s s' := by
  unfold incSocket at hj
  split at hj
  · cases hj
  · rename_i k hk
    obtain ⟨rfl, rfl⟩ := Prod.mk.inj (Option.some.inj hj)
    exact h.newChannel (by simpa using find?_some hk) hkind rfl rfl rfl (Nat.zero_le _) hf

theorem cellAlloc_spec {t : EventTable} {j : Fin t.cap} (hj : cellAlloc s t = some (j, s'))
    (hf : f.names = some (.event t j)) : Good P s' Z (f :: D) ∧ SamePlaces s s' := by
  unfold cellAlloc at hj
  split at hj
  · cases hj
  · rename_i k hk
    obtain ⟨rfl, rfl⟩ := Prod.mk.inj (Option.some.inj hj)
    have hzero : refs s (.event t k) = 0 := h.sound.refs_idle (by simpa [busy] using find?_some hk)
    have hr : Recount s (s.setEvent t k { inUse := true, refs := 1 }) (.event t k)
        (refs s (.event t k) + 1) := by
      rw [hzero]
      exact recount_event
    exact ⟨h.take hf hr (h.sound.setEvent (by simp [Cell.Ok])), hr.toSamePlaces⟩

theorem srAlloc_spec {j : Fin kMaxRelays} (hj : srAlloc s = some (j, s'))
    (hf : f.names = some (.ptyMaster j)) : Good P s' Z (f :: D) ∧ SamePlaces s s' := by
  unfold srAlloc at hj
  split at hj
  · cases hj
  · rename_i k hk
    obtain ⟨rfl, rfl⟩ := Prod.mk.inj (Option.some.inj hj)
    have hidle : (s.relays k).inUse = false := by simpa using find?_some hk
    have hmaster : refs s (.ptyMaster k) = 0 := h.sound.refs_idle hidle
    have hslave : refs s (.ptySlave k) = 0 := h.sound.refs_idle hidle
    have hr : Recount s (s.setRelay k { inUse := true, masterRefs := 1, slaveLocked := true })
        (.ptyMaster k) (refs s (.ptyMaster k) + 1) := by
      rw [hmaster]
      exact recount_ptyMaster hslave.symm
    exact ⟨h.take hf hr (h.sound.setRelay (by simp [Relay.Ok])), hr.toSamePlaces⟩

theorem srOpenSlave_spec {j : Fin kMaxRelays} (hD : D.length ≤ 2 * kChannelScmMax)
    (hj : srOpenSlave s j = some s') (hf : f.names = some (.ptySlave j)) :
    Good P s' Z (f :: D) ∧ SamePlaces s s' := by
  simp only [srOpenSlave] at hj
  split at hj
  · obtain rfl := Option.some.inj hj
    rename_i huse
    have hlt : (s.relays j).slaveRefs + 1 < 2 ^ 16 := h.refs_lt hD (.ptySlave j)
    rw [inc16_eq hlt]
    have hr : Recount s (s.setRelay j
        { s.relays j with slaveRefs := (s.relays j).slaveRefs + 1, slaveEverOpened := true })
        (.ptySlave j) (refs s (.ptySlave j) + 1) := recount_ptySlave rfl
    exact ⟨h.take hf hr (h.sound.setRelay (by simp [Relay.Ok, huse.1])), hr.toSamePlaces⟩
  · cases hj

/-- Both ends of a new pipe are in hand. -/
theorem aiwassCreate_spec {heap : Bool} {j : Fin kMaxAiwass} {g : Fd}
    (hj : aiwassCreate s heap = some (j, s')) (hf : f.names = some (.pipeRead j))
    (hg : g.names = some (.pipeWrite j)) : Good P s' Z (g :: f :: D) ∧ SamePlaces s s' := by
  unfold aiwassCreate at hj
  split at hj
  · cases hj
  rename_i k hk
  split at hj
  · obtain ⟨rfl, rfl⟩ := Prod.mk.inj (Option.some.inj hj)
    have hidle : (s.pipes k).inUse = false := by simpa using find?_some hk
    have hread : refs s (.pipeRead k) = 0 := h.sound.refs_idle hidle
    have hwrite : refs s (.pipeWrite k) = 0 := h.sound.refs_idle hidle
    -- the read end first, and then the write end
    generalize hs1 : s.setPipe k { inUse := true, readRefs := 1, writeRefs := 0 } = s1
    have hr1 : Recount s s1 (.pipeRead k) (refs s (.pipeRead k) + 1) := by
      rw [← hs1, hread]
      exact recount_pipeRead hwrite.symm
    have h1 : Good P s1 Z (f :: D) :=
      h.take hf hr1 (hs1 ▸ h.sound.setPipe (by simp [Aiwass.Ok]))
    have hpipe : s1.pipes k = { inUse := true, readRefs := 1, writeRefs := 0 } := by
      simp [← hs1, State.setPipe]
    have heq : s.setPipe k { inUse := true, readRefs := 1, writeRefs := 1 } =
        s1.setPipe k { inUse := true, readRefs := 1, writeRefs := 1 } := by
      simp [← hs1, State.setPipe]
    have hr2 : Recount s1 (s1.setPipe k { inUse := true, readRefs := 1, writeRefs := 1 })
        (.pipeWrite k) (refs s1 (.pipeWrite k) + 1) := by
      simp only [refs, hpipe]
      exact recount_pipeWrite (by simp [hpipe])
    rw [heq]
    exact ⟨h1.take hg hr2 (h1.sound.setPipe (by simp [Aiwass.Ok])),
      hr1.toSamePlaces.trans hr2.toSamePlaces⟩
  · cases hj

end

/-! ## Queues and channels -/

theorem queued_setAntenna (s : State) (j : Fin kMaxAntennas) (a : Antenna) (o : Obj) :
    queued (s.setAntenna j a) o + ((s.antennas j).acceptQueue.map Obj.socket).count o =
      queued s o + (a.acceptQueue.map Obj.socket).count o := by
  have h := tally_update (fun _ (a : Antenna) => (a.acceptQueue.map Obj.socket).count o)
    s.antennas j a
  simp only [queued, State.setAntenna]
  omega

section
variable (s : State) (j : Fin kMaxChannels) (c : Channel) (o : Obj)

theorem queued_setChannel :
    queued (s.setChannel j c) o + ((s.channels j).acceptQueue.map Obj.channel).count o =
      queued s o + (c.acceptQueue.map Obj.channel).count o := by
  have h := tally_update (fun _ (c : Channel) => (c.acceptQueue.map Obj.channel).count o)
    s.channels j c
  simp only [queued, State.setChannel]
  omega

theorem inFlight_setChannel :
    inFlight (s.setChannel j c) ∅ o + (s.channels j).carries o = inFlight s ∅ o + c.carries o := by
  have h := tally_update (fun i (c : Channel) => if i ∈ (∅ : Finset (Fin kMaxChannels)) then 0
    else c.carries o) s.channels j c
  simpa only [inFlight, State.setChannel, Finset.notMem_empty, if_false] using h

end

section
variable (h : Good P s ∅ D)
include h

/-- A socket is written with the same count, and descriptors move between its queue and the hands of
the kernel. -/
theorem Good.reantenna {j : Fin kMaxAntennas} {a : Antenna} (hok : a.Ok)
    (hrefs : a.refs = (s.antennas j).refs)
    (hmove : ∀ o, inHand o D + ((s.antennas j).acceptQueue.map Obj.socket).count o =
      inHand o D' + (a.acceptQueue.map Obj.socket).count o) :
    Good P (s.setAntenna j a) ∅ D' where
  sound := h.sound.setAntenna hok
  balanced o := by
    have hb := h.balanced o
    have hq := queued_setAntenna s j a o
    have hm := hmove o
    have hr : refs (s.setAntenna j a) o = refs s o := by grind [refs_setAntenna, refs]
    have hf : inFlight (s.setAntenna j a) ∅ o = inFlight s ∅ o := rfl
    omega

/-- A channel is written with the same count, and descriptors move between it and the hands of the
kernel. -/
theorem Good.rechannel {c : Channel} (hok : c.Ok False)
    (hrefs : c.refs = (s.channels j).refs)
    (hmove : ∀ o, inHand o D + (s.channels j).carries o +
      ((s.channels j).acceptQueue.map Obj.channel).count o = inHand o D' + c.carries o +
      (c.acceptQueue.map Obj.channel).count o) :
    Good P (s.setChannel j c) ∅ D' where
  sound := h.sound.setChannel (by simpa using hok) fun _ _ => Iff.rfl
  balanced o := by
    have hb := h.balanced o
    have hq := queued_setChannel s j c o
    have hf := inFlight_setChannel s j c o
    have hm := hmove o
    have hr : refs (s.setChannel j c) o = refs s o := by grind [refs_setChannel, refs]
    omega

theorem Good.antennaOk (j : Fin kMaxAntennas) : (s.antennas j).Ok := h.sound.antennas j

theorem Good.channelOk (j : Fin kMaxChannels) : (s.channels j).Ok False := by
  simpa using h.sound.channels j

end

section
variable (h : Good P s ∅ D)
include h

/-- A socket is written, and neither its count nor its queue changes. -/
theorem Good.sameAntenna {j : Fin kMaxAntennas} {a : Antenna}
    (hproto : a.proto = (s.antennas j).proto)
    (hrefs : a.refs = (s.antennas j).refs) (hq : a.acceptQueue = (s.antennas j).acceptQueue)
    (hback : a.backlog ≤ kAcceptCap) : Good P (s.setAntenna j a) ∅ D := by
  obtain ⟨hused, hidle, hqueue, -⟩ := h.antennaOk j
  rw [← hproto, ← hrefs] at hused
  rw [← hrefs, ← hq] at hidle
  exact h.reantenna ⟨hused, hidle, hq ▸ hqueue, hback⟩ hrefs fun o => by rw [hq]

/-- A channel is written, and neither its count nor its queue nor what is in flight in it
changes. -/
theorem Good.sameChannel {c : Channel} (hkind : c.kind = (s.channels j).kind)
    (hrefs : c.refs = (s.channels j).refs) (hq : c.acceptQueue = (s.channels j).acceptQueue)
    (hpend : c.scmPending = (s.channels j).scmPending) (hback : c.backlog ≤ kAcceptCap) :
    Good P (s.setChannel j c) ∅ D := by
  obtain ⟨hused, hdead, hidle, hempty, hqueue, -, hpending⟩ := h.channelOk j
  rw [← hkind, ← hrefs] at hused
  rw [← hrefs, ← hq] at hidle
  rw [← hkind, ← hpend] at hempty
  refine h.rechannel ⟨hused, nofun, hidle, hempty, hq ▸ hqueue, hback, hpend ▸ hpending⟩ hrefs
    fun o => ?_
  rw [Channel.carries, Channel.carries, hq, hpend]

end

theorem Good.reorder (h : Good P s Z D) (hD : ∀ o, inHand o D' = inHand o D) : Good P s Z D' :=
  ⟨h.sound, fun o => by rw [h.balanced o, hD]⟩

/-! ## Calls that need no condition -/

/-- Between two calls nothing is in hand and no channel is dying. -/
def Booked (s : State) : Prop := Good s.procs s ∅ []

theorem freeFd_closed (h : freeFd s p lo = some i) : ((s.procs p).fds i).kind = .closed := by
  have := find?_some h
  simp only [decide_eq_true_eq] at this
  exact this.2

theorem freeFd_names (h : freeFd s p lo = some i) : ((s.procs p).fds i).names = none :=
  names_of_closed (freeFd_closed h)

/-- A descriptor in hand is installed, or released when the table is full. -/
theorem installFd_spec (h : Good s.procs s ∅ (f :: D)) (hl : (s.procs p).live = true)
    (hanch : freeFd s p lo = none → Anchored s.procs s [] S) :
    Good (installFd s p lo f).procs (installFd s p lo f) ∅ D := by
  unfold installFd
  cases hfree : freeFd s p lo with
  | some i => exact (h.place hl (freeFd_names hfree)).procs _
  | none =>
    have hr := release_spec (fun _ => Nat.le_refl _) h (hanch hfree)
    have := hr.good
    rwa [← hr.procs] at this

section
variable (h : Booked s) (hl : (s.procs p).live = true)
include h hl

/-- A new object is installed; nothing else depends on it yet. -/
theorem Booked.install (hnew : Good s.procs s' ∅ [f] ∧ SamePlaces s s') :
    Booked (installFd s' p lo f) := by
  obtain ⟨hgood, hplaces⟩ := hnew
  have hp := hplaces.procs
  refine installFd_spec (S := {o | 0 < refs s o}) (by rwa [hp]) (by rwa [hp]) fun _ => ?_
  rw [hp]
  exact h.anchored.congr hplaces

theorem openPlain_booked (kind : FdKind) : Booked (openPlain s p kind) := by
  unfold openPlain
  split
  · rename_i hkind
    split
    · rename_i i hfree
      refine (h.rename hl ?_).procs _
      rw [freeFd_names hfree]
      rcases hkind with rfl | rfl | rfl | rfl | rfl <;> rfl
    · exact h
  · exact h

theorem openPtmx_booked : Booked (openPtmx s p) := by
  unfold openPtmx
  cases halloc : srAlloc s with
  | none => exact h
  | some r => exact h.install hl (srAlloc_spec h halloc (by simp [Fd.names]))

theorem openPts_booked (n : Nat) : Booked (openPts s p n) := by
  unfold openPts
  cases slot kMaxRelays (some n) with
  | none => exact h
  | some j =>
    simp only
    cases hopen : srOpenSlave s j with
    | none => exact h
    | some s' => exact h.install hl (srOpenSlave_spec h (Nat.zero_le _) hopen (by simp [Fd.names]))

theorem eventCall_booked (t : EventTable) : Booked (eventCall s p t) := by
  unfold eventCall
  cases halloc : cellAlloc s t with
  | none => exact h
  | some r =>
    refine h.install hl (cellAlloc_spec h halloc ?_)
    cases t <;> simp [Fd.names, EventTable.fdKind]

theorem socketCall_booked (t : SockType) (cloexec : Bool) : Booked (socketCall s p t cloexec) := by
  have hinet : ∀ proto r, antennaSocket s proto = some r → proto ≠ .free →
      Booked (installFd r.2 p 0 { kind := .socket, sockIdx := some r.1, cloexec := cloexec }) :=
    fun _ _ halloc hproto => h.install hl (antennaSocket_spec h hproto halloc (by simp [Fd.names]))
  have hunix : ∀ kind r, incSocket s kind = some r → kind ≠ .free →
      Booked (installFd r.2 p 0 { kind := .unixSock, sockIdx := some r.1, cloexec := cloexec }) :=
    fun _ _ halloc hkind => h.install hl (incSocket_spec h hkind halloc (by simp [Fd.names]))
  cases t <;> dsimp only [socketCall] <;> split <;>
    first
    | exact h
    | exact hinet _ _ (by assumption) (by simp)
    | exact hunix _ _ (by assumption) (by simp)

end

theorem unlockpt_booked (h : Booked s) (fd : Nat) : Booked (unlockpt s p fd) := by
  unfold unlockpt
  cases openFd s p fd with
  | none => exact h
  | some i =>
    simp only
    split
    · unfold at'
      cases slot kMaxRelays ((s.procs p).fds i).sockIdx with
      | none => exact h
      | some j =>
        simp only [Option.elim_some, srUnlock]
        split
        · have hok := h.sound.relays j
          refine Good.congr h ⟨fun _ => rfl, fun _ => rfl, fun _ => rfl, rfl⟩ (fun o => ?_)
            (h.sound.setRelay hok)
          grind [refs_setRelay, refs]
        · exact h
    · exact h

/-- Two closed descriptors get what is in hand. -/
theorem Good.placeTwo {g : Fd} {i j : Fin kMaxFds} (h : Good s.procs s Z (g :: f :: D))
    (hl : (s.procs p).live = true) (hne : i ≠ j) (hi : ((s.procs p).fds i).kind = .closed)
    (hj : ((s.procs p).fds j).kind = .closed) :
    Good ((s.setFd p i f).setFd p j g).procs ((s.setFd p i f).setFd p j g) Z D := by
  have h' : Good s.procs s Z (f :: g :: D) := h.reorder fun o => by simp only [inHand_cons]; omega
  have h1 := h'.place hl (names_of_closed hi)
  have hj' : ((withFd s.procs p i f p).fds j).names = none := by
    rw [withFd_fds, Function.update_of_ne (Ne.symm hne)]
    exact names_of_closed hj
  exact (h1.place (by simpa using hl) hj').procs _

/-- The first two that are free. -/
theorem two_free {n : Nat} {q : Fin n → Bool} {i j : Fin n} {l : List (Fin n)}
    (h : (finRange n).filter q = i :: j :: l) : i ≠ j ∧ q i = true ∧ q j = true := by
  have hnodup := (nodup_finRange n).filter q
  rw [h] at hnodup
  have hmem : ∀ x ∈ i :: j :: l, q x = true := fun x hx => (mem_filter.1 (h ▸ hx)).2
  refine ⟨fun heq => ?_, hmem i (by simp), hmem j (by simp)⟩
  subst heq
  simp at hnodup

theorem linuxPipe2_booked (h : Booked s) (hl : (s.procs p).live = true) (heap : Bool) :
    Booked (linuxPipe2 s p heap) := by
  unfold linuxPipe2
  split
  · rename_i r w l hfilter
    obtain ⟨hne, hr, hw⟩ := two_free hfilter
    simp only [decide_eq_true_eq] at hr hw
    cases hpipe : aiwassCreate s heap with
    | none => exact h
    | some x =>
      obtain ⟨hgood, hplaces⟩ := aiwassCreate_spec (f := { kind := .pipeRead, pipeIdx := some x.1 })
        (g := { kind := .pipeWrite, pipeIdx := some x.1 }) h hpipe (by simp [Fd.names])
        (by simp [Fd.names])
      rw [← hplaces.procs] at hgood hl hr hw
      exact hgood.placeTwo hl hne hr.2 hw.2
  · exact h

theorem incSocketpair_spec {x : Fin kMaxChannels × Fin kMaxChannels × State} {g : Fd}
    (h : Good P s Z D) (hx : incSocketpair s = some x) (hf : f.names = some (.channel x.1))
    (hg : g.names = some (.channel x.2.1)) : Good P x.2.2 Z (g :: f :: D) ∧ SamePlaces s x.2.2 := by
  unfold incSocketpair at hx
  split at hx
  · rename_i a b l hfilter
    obtain rfl := Option.some.inj hx
    obtain ⟨hne, ha, hb⟩ := two_free hfilter
    rw [decide_eq_true_eq] at ha
    obtain ⟨h1, hp1⟩ := h.newChannel ha
      (c := { kind := .stream, state := .connected, refs := 1, peer := some b })
      (by simp) rfl rfl rfl
      (Nat.zero_le _) hf
    obtain ⟨h2, hp2⟩ := h1.newChannel
      (by simpa [State.setChannel, hne.symm] using hb)
      (c := { kind := .stream, state := .connected, refs := 1, peer := some a })
      (by simp) rfl rfl rfl
      (Nat.zero_le _) hg
    exact ⟨h2, hp1.trans hp2⟩
  · cases hx

theorem socketpairCall_booked (h : Booked s) (hl : (s.procs p).live = true) :
    Booked (socketpairCall s p) := by
  unfold socketpairCall
  cases hpair : incSocketpair s with
  | none => exact h
  | some x =>
    obtain ⟨a, b, s'⟩ := x
    obtain ⟨hgood, hplaces⟩ := incSocketpair_spec (f := { kind := .unixSock, sockIdx := some a })
      (g := { kind := .unixSock, sockIdx := some b }) h hpair
      (by simp [Fd.names]) (by simp [Fd.names])
    rw [← hplaces.procs] at hgood hl
    simp only
    split
    · rename_i i j l hfilter
      obtain ⟨hne, hi, hj⟩ := two_free hfilter
      exact hgood.placeTwo hl hne (by simpa using hi) (by simpa using hj)
    · have hanch : Anchored s'.procs s' [] {o | 0 < refs s o} := by
        rw [hplaces.procs]
        exact h.anchored.congr hplaces
      have hgood' : Good s'.procs s' ∅
          [{ kind := .unixSock, sockIdx := some a.val },
            { kind := .unixSock, sockIdx := some b.val }] :=
        hgood.reorder fun o => by simp only [inHand_cons]; omega
      have h1 := release_spec (fun _ => Nat.le_refl _) hgood' hanch
      have h2 := release_spec (fun _ => Nat.le_refl _) h1.good h1.anchored
      have := h2.good
      rwa [← h1.procs, ← h2.procs] at this

end IndexOS.Descriptors
