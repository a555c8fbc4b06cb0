import IndexOS.Descriptors.Calls
import IndexOS.Lib.Tally

/-!
# The books of the descriptor tables

What a reference count should be: the number of places that name the object.  A place is an entry of
the descriptor table of a live process (`named`), a descriptor in flight in a channel (`inFlight`),
or an accept queue, which holds the one reference of a connection until it is accepted (`queued`). 
In the middle of a call there are also descriptors in the hands of the kernel, that were taken out
of a place and not yet put into another one, or not yet released.

* `refs`, `busy` — the count of an object and whether its slot is taken;
* `Sound` — each slot on its own is in order: it is taken while its count is positive;
* `Balanced` — every count is the number of places and hands that name the object;
* `Recount` — what a step that moves one count by one leaves alone, and `incObj_spec`,
  `closeObj_spec` for the functions that take and drop a reference.

A channel whose last reference is gone is *dying* while the descriptors in flight in it are
released: they then count as being in the hands of the kernel.
-/

set_option autoImplicit false

namespace IndexOS.Descriptors

open State
open Function (forall_update_iff update_apply update_idem update_self)

variable {r : Relay} {a : Aiwass} {i : Fin kMaxAiwass}

/-- The reference count of an object. -/
def refs (s : State) : Obj → Nat
  | .pipeRead i => (s.pipes i).readRefs
  | .pipeWrite i => (s.pipes i).writeRefs
  | .socket i => (s.antennas i).refs
  | .channel i => (s.channels i).refs
  | .event t i => (s.events t i).refs
  | .ptyMaster i => (s.relays i).masterRefs
  | .ptySlave i => (s.relays i).slaveRefs

/-- The slot of the object is taken. -/
def busy (s : State) : Obj → Bool
  | .pipeRead i | .pipeWrite i => (s.pipes i).inUse
  | .socket i => (s.antennas i).proto ≠ .free
  | .channel i => (s.channels i).kind ≠ .free
  | .event t i => (s.events t i).inUse
  | .ptyMaster i | .ptySlave i => (s.relays i).inUse

/-! ## Places -/

def naming (o : Obj) (f : Fd) : Nat := if f.names = some o then 1 else 0

/-- How many of some descriptors name the object. -/
def inHand (o : Obj) (D : List Fd) : Nat := (D.map (naming o)).sum

def Proc.naming (o : Obj) (x : Proc) : Nat :=
  if x.live then tally (fun _ => Descriptors.naming o) x.fds else 0

/-- The entries of the descriptor tables of live processes that name the object. -/
def named (P : Fin kMaxEspers → Proc) (o : Obj) : Nat := tally (fun _ => Proc.naming o) P

def Channel.carries (o : Obj) (c : Channel) : Nat := inHand o (c.scmPending.map Prod.fst)

/-- The descriptors in flight that name the object, those in a dying channel left out. -/
def inFlight (s : State) (Z : Finset (Fin kMaxChannels)) (o : Obj) : Nat :=
  tally (fun i c => if i ∈ Z then 0 else c.carries o) s.channels

/-- The accept queues that hold the object. -/
def queued (s : State) (o : Obj) : Nat :=
  tally (fun _ a => (a.acceptQueue.map Obj.socket).count o) s.antennas +
    tally (fun _ c => (c.acceptQueue.map Obj.channel).count o) s.channels

/-- The connections that wait on a listener. -/
def waiting (s : State) : Obj → Nat
  | .socket i => (s.antennas i).acceptQueue.length
  | .channel i => (s.channels i).acceptQueue.length
  | _ => 0

variable {s s' : State} {o o' : Obj} {f : Fd} {D : List Fd} {Z : Finset (Fin kMaxChannels)}
  {P : Fin kMaxEspers → Proc}

@[simp] theorem inHand_nil : inHand o [] = 0 := rfl

@[simp] theorem inHand_cons : inHand o (f :: D) = naming o f + inHand o D := rfl

@[simp] theorem inHand_append (D' : List Fd) : inHand o (D ++ D') = inHand o D + inHand o D' := by
  simp [inHand]

theorem naming_le (o : Obj) (f : Fd) : naming o f ≤ 1 := by
  unfold naming
  split <;> omega

theorem inHand_le (o : Obj) (D : List Fd) : inHand o D ≤ D.length := by
  induction D with
  | nil => exact Nat.le_refl 0
  | cons f D ih =>
    have := naming_le o f
    simp only [inHand_cons, List.length_cons]
    omega

theorem naming_self (h : f.names = some o) : naming o f = 1 := if_pos h

theorem naming_none (h : f.names = none) (o : Obj) : naming o f = 0 := by simp [naming, h]

theorem naming_of (h : f.names = some o) (o' : Obj) : naming o' f = if o' = o then 1 else 0 := by
  simp only [naming, h, Option.some.injEq, eq_comm]

/-! ## Slots -/

def Aiwass.Ok (a : Aiwass) : Prop := a.inUse = true ↔ 0 < a.readRefs + a.writeRefs

def Relay.Ok (r : Relay) : Prop := r.inUse = true ↔ 0 < r.masterRefs + r.slaveRefs

def Cell.Ok (c : Cell) : Prop := c.inUse = true ↔ 0 < c.refs

structure Antenna.Ok (a : Antenna) : Prop where
  used : a.proto ≠ .free ↔ 0 < a.refs
  idle : a.refs = 0 → a.acceptQueue = []
  queue : a.acceptQueue.length ≤ kAcceptCap
  backlog : a.backlog ≤ kAcceptCap

structure Channel.Ok (c : Channel) (dying : Prop) : Prop where
  used : c.kind ≠ .free ↔ 0 < c.refs ∨ dying
  dead : dying → c.refs = 0
  idle : c.refs = 0 → c.acceptQueue = []
  empty : c.kind = .free → c.scmPending = []
  queue : c.acceptQueue.length ≤ kAcceptCap
  backlog : c.backlog ≤ kAcceptCap
  pending : c.scmPending.length ≤ kChannelScmMax

/-- Every slot is in order; the channels in `Z` are dying. -/
structure Sound (s : State) (Z : Finset (Fin kMaxChannels)) : Prop where
  pipes : ∀ i, (s.pipes i).Ok
  antennas : ∀ i, (s.antennas i).Ok
  channels : ∀ i, (s.channels i).Ok (i ∈ Z)
  relays : ∀ i, (s.relays i).Ok
  events : ∀ t i, (s.events t i).Ok

/-- Every count is the number of places that name the object, with the descriptors in hand. -/
def Balanced (P : Fin kMaxEspers → Proc) (s : State) (Z : Finset (Fin kMaxChannels)) (D : List Fd) :
    Prop :=
  ∀ o, refs s o = named P o + inFlight s Z o + queued s o + inHand o D

section
variable (h : Sound s Z)
include h

theorem Sound.setPipe (ha : a.Ok) : Sound (s.setPipe i a) Z :=
  { h with pipes := (forall_update_iff _ fun _ => Aiwass.Ok).2 ⟨ha, fun j _ => h.pipes j⟩ }

theorem Sound.setAntenna {i : Fin kMaxAntennas} {a : Antenna} (ha : a.Ok) :
    Sound (s.setAntenna i a) Z :=
  { h with antennas := (forall_update_iff _ fun _ => Antenna.Ok).2 ⟨ha, fun j _ => h.antennas j⟩ }

theorem Sound.setChannel {i : Fin kMaxChannels} {c : Channel} {Z' : Finset (Fin kMaxChannels)}
    (hc : c.Ok (i ∈ Z')) (hZ : ∀ j, j ≠ i → (j ∈ Z' ↔ j ∈ Z)) : Sound (s.setChannel i c) Z' :=
  have hall := (forall_update_iff s.channels fun j c => c.Ok (j ∈ Z')).2
    ⟨hc, fun j hj => by simpa only [hZ j hj] using h.channels j⟩
  { h with channels := hall }

theorem Sound.setRelay {i : Fin kMaxRelays} (hr : r.Ok) : Sound (s.setRelay i r) Z :=
  { h with relays := (forall_update_iff _ fun _ => Relay.Ok).2 ⟨hr, fun j _ => h.relays j⟩ }

theorem Sound.setEvent {t : EventTable} {i : Fin t.cap} {c : Cell} (hc : c.Ok) :
    Sound (s.setEvent t i c) Z :=
  have hcell := (forall_update_iff (s.events t) fun _ => Cell.Ok).2 ⟨hc, fun j _ => h.events t j⟩
  have hall := (forall_update_iff s.events fun _ cells => ∀ j, (cells j).Ok).2
    ⟨hcell, fun t' _ => h.events t'⟩
  { h with events := hall }

/-- An object whose slot is free has no reference. -/
theorem Sound.refs_idle (ho : busy s o = false) : refs s o = 0 := by
  cases o with
  | pipeRead i | pipeWrite i =>
    have hok := h.pipes i
    grind [busy, refs, Aiwass.Ok]
  | socket i =>
    have hok := (h.antennas i).used
    grind [busy, refs]
  | channel i =>
    have hok := (h.channels i).used
    grind [busy, refs]
  | event t i =>
    have hok := h.events t i
    grind [busy, refs, Cell.Ok]
  | ptyMaster i | ptySlave i =>
    have hok := h.relays i
    grind [busy, refs, Relay.Ok]

end

/-! ## The count of an object after a slot is written -/

theorem refs_setPipe (s : State) (i : Fin kMaxAiwass) (a : Aiwass) (o : Obj) :
    refs (s.setPipe i a) o =
      if o = .pipeRead i then a.readRefs else if o = .pipeWrite i then a.writeRefs else refs
        s o := by
  cases o <;> simp only [refs, setPipe, update_apply, Obj.pipeRead.injEq,
    Obj.pipeWrite.injEq, reduceCtorEq, if_false]
  all_goals split <;> rfl

theorem refs_setAntenna (s : State) (i : Fin kMaxAntennas) (a : Antenna) (o : Obj) :
    refs (s.setAntenna i a) o = if o = .socket i then a.refs else refs s o := by
  cases o <;> simp only [refs, setAntenna, update_apply, Obj.socket.injEq,
    reduceCtorEq, if_false]
  split <;> rfl

theorem refs_setChannel (s : State) (i : Fin kMaxChannels) (c : Channel) (o : Obj) :
    refs (s.setChannel i c) o = if o = .channel i then c.refs else refs s o := by
  cases o <;> simp only [refs, setChannel, update_apply, Obj.channel.injEq,
    reduceCtorEq, if_false]
  split <;> rfl

theorem refs_setRelay (s : State) (i : Fin kMaxRelays) (r : Relay) (o : Obj) :
    refs (s.setRelay i r) o =
      if o = .ptyMaster i then r.masterRefs else if o = .ptySlave i then r.slaveRefs else refs
        s o := by
  cases o <;> simp only [refs, setRelay, update_apply, Obj.ptyMaster.injEq,
    Obj.ptySlave.injEq, reduceCtorEq, if_false]
  all_goals split <;> rfl

theorem refs_setEvent (s : State) (t : EventTable) (i : Fin t.cap) (c : Cell) (o : Obj) :
    refs (s.setEvent t i c) o = if o = .event t i then c.refs else refs s o := by
  cases o with
  | event t' j =>
    by_cases ht : t' = t
    · subst ht
      by_cases hj : j = i
      · subst hj; simp [refs, setEvent]
      · simp [refs, setEvent, hj]
    · simp [refs, setEvent, ht]
  | _ => simp [refs, setEvent]

/-! ## One count moves -/

/-- No place changes. -/
structure SamePlaces (s s' : State) : Prop where
  pending : ∀ i, (s'.channels i).scmPending = (s.channels i).scmPending
  antennaQueue : ∀ i, (s'.antennas i).acceptQueue = (s.antennas i).acceptQueue
  channelQueue : ∀ i, (s'.channels i).acceptQueue = (s.channels i).acceptQueue
  procs : s'.procs = s.procs

/-- The count of `o` becomes `n`, and no place changes. -/
structure Recount (s s' : State) (o : Obj) (n : Nat) : Prop extends SamePlaces s s' where
  refs_eq : ∀ o', refs s' o' = if o' = o then n else refs s o'

namespace SamePlaces

variable (h : SamePlaces s s')
include h

theorem carries_eq (i : Fin kMaxChannels) :
    (s'.channels i).carries o = (s.channels i).carries o := by
  simp only [Channel.carries, h.pending]

theorem inFlight_eq : inFlight s' Z o = inFlight s Z o :=
  tally_congr fun i => by simp only [h.carries_eq]

theorem queued_eq : queued s' o = queued s o :=
  congrArg₂ (· + ·) (tally_congr fun i => by simp only [h.antennaQueue])
    (tally_congr fun i => by simp only [h.channelQueue])

theorem waiting_eq (o : Obj) : waiting s' o = waiting s o := by
  cases o <;> simp only [waiting, h.antennaQueue, h.channelQueue]

end SamePlaces

section Recount

theorem recount_pipeRead (h : a.writeRefs = (s.pipes i).writeRefs) :
    Recount s (s.setPipe i a) (.pipeRead i) a.readRefs :=
  ⟨⟨fun _ => rfl, fun _ => rfl, fun _ => rfl, rfl⟩, fun o' => by grind [refs_setPipe, refs]⟩

theorem recount_pipeWrite (h : a.readRefs = (s.pipes i).readRefs) :
    Recount s (s.setPipe i a) (.pipeWrite i) a.writeRefs :=
  ⟨⟨fun _ => rfl, fun _ => rfl, fun _ => rfl, rfl⟩, fun o' => by grind [refs_setPipe, refs]⟩

theorem recount_ptyMaster {i : Fin kMaxRelays} (h : r.slaveRefs = (s.relays i).slaveRefs) :
    Recount s (s.setRelay i r) (.ptyMaster i) r.masterRefs :=
  ⟨⟨fun _ => rfl, fun _ => rfl, fun _ => rfl, rfl⟩, fun o' => by grind [refs_setRelay, refs]⟩

theorem recount_ptySlave {i : Fin kMaxRelays} (h : r.masterRefs = (s.relays i).masterRefs) :
    Recount s (s.setRelay i r) (.ptySlave i) r.slaveRefs :=
  ⟨⟨fun _ => rfl, fun _ => rfl, fun _ => rfl, rfl⟩, fun o' => by grind [refs_setRelay, refs]⟩

theorem recount_event {t : EventTable} {i : Fin t.cap} {c : Cell} :
    Recount s (s.setEvent t i c) (.event t i) c.refs :=
  ⟨⟨fun _ => rfl, fun _ => rfl, fun _ => rfl, rfl⟩, fun o' => refs_setEvent s t i c o'⟩

theorem recount_socket {i : Fin kMaxAntennas} {a : Antenna}
    (h : a.acceptQueue = (s.antennas i).acceptQueue) :
    Recount s (s.setAntenna i a) (.socket i) a.refs := by
  refine ⟨⟨fun _ => rfl, fun j => ?_, fun _ => rfl, rfl⟩, fun o' => refs_setAntenna s i a o'⟩
  simp only [setAntenna, update_apply]
  split
  · rename_i hj; rw [hj, h]
  · rfl

theorem recount_channel {i : Fin kMaxChannels} {c : Channel}
    (h : c.acceptQueue = (s.channels i).acceptQueue)
    (hp : c.scmPending = (s.channels i).scmPending) :
    Recount s (s.setChannel i c) (.channel i) c.refs := by
  refine ⟨⟨fun j => ?_, fun _ => rfl, fun j => ?_, rfl⟩, fun o' => refs_setChannel s i c o'⟩
  all_goals simp only [setChannel, update_apply]
  all_goals split
  · rename_i hj; rw [hj, hp]
  · rfl
  · rename_i hj; rw [hj, h]
  · rfl

end Recount

/-! ## Taking a reference -/

/-- The function of a table that takes a reference. -/
def incObj (s : State) : Obj → State
  | .pipeRead i => aiwassIncRead s i
  | .pipeWrite i => aiwassIncWrite s i
  | .socket i => antennaIncRef s i
  | .channel i => incIncRef s i
  | .event t i => cellIncRef t s i
  | .ptyMaster i => srMasterIncRef s i
  | .ptySlave i => srSlaveIncRef s i

theorem refFdBackend_eq (s : State) (f : Fd) : refFdBackend s f = f.names.elim s (incObj s) := by
  unfold refFdBackend Fd.names at'
  cases f.kind <;> simp only [Option.elim_map] <;> rfl

theorem inc16_eq {n : Nat} (h : n + 1 < 2 ^ 16) : inc16 n = n + 1 := Nat.mod_eq_of_lt h

theorem inc32_eq {n : Nat} (h : n + 1 < 2 ^ 16) : inc32 n = n + 1 :=
    Nat.mod_eq_of_lt (h.trans (by decide))

theorem incObj_spec (hs : Sound s Z) (hpos : 0 < refs s o) (hlt : refs s o + 1 < 2 ^ 16) :
    Sound (incObj s o) Z ∧ Recount s (incObj s o) o (refs s o + 1) := by
  cases o with
  | pipeRead i | pipeWrite i =>
    simp only [refs] at hpos hlt
    have huse : (s.pipes i).inUse = true := (hs.pipes i).2 (by omega)
    simp only [incObj, aiwassIncRead, aiwassIncWrite, huse]
    rw [inc32_eq hlt]
    refine ⟨hs.setPipe (by simp [Aiwass.Ok]), ?_⟩
    first | exact recount_pipeRead rfl | exact recount_pipeWrite rfl
  | socket i =>
    simp only [refs] at hlt ⊢
    have hok := hs.antennas i
    have huse : (s.antennas i).proto ≠ .free := hok.used.2 hpos
    simp only [incObj, antennaIncRef, huse, ne_eq, not_false_iff]
    rw [inc16_eq hlt]
    exact ⟨hs.setAntenna ⟨by simp [huse], by simp, hok.queue, hok.backlog⟩, recount_socket rfl⟩
  | channel i =>
    simp only [refs] at hpos hlt
    have hok := hs.channels i
    have huse : (s.channels i).kind ≠ .free := hok.used.2 (Or.inl hpos)
    have hdead : i ∉ Z := fun h => by
      have := hok.dead h
      omega
    simp only [incObj, incIncRef, huse, ne_eq, not_false_iff]
    rw [inc16_eq hlt]
    refine ⟨hs.setChannel ⟨by simp [huse], fun h => absurd h hdead, by simp, hok.empty, hok.queue,
      hok.backlog, hok.pending⟩ fun _ _ => Iff.rfl, recount_channel rfl rfl⟩
  | event t i =>
    simp only [refs] at hlt
    have huse : (s.events t i).inUse = true := (hs.events t i).2 hpos
    simp only [incObj, cellIncRef, huse]
    rw [inc16_eq hlt]
    exact ⟨hs.setEvent (by simp [Cell.Ok]), recount_event⟩
  | ptyMaster i | ptySlave i =>
    simp only [refs] at hpos hlt
    have huse : (s.relays i).inUse = true := (hs.relays i).2 (by omega)
    simp only [incObj, srMasterIncRef, srSlaveIncRef, huse]
    rw [inc16_eq hlt]
    refine ⟨hs.setRelay (by simp [Relay.Ok]), ?_⟩
    first | exact recount_ptyMaster rfl | exact recount_ptySlave rfl

/-! ## Dropping a reference -/

/-- The function of a table that drops a reference. -/
def closeObj (n : Nat) (s : State) : Obj → State
  | .pipeRead i => aiwassCloseRead s i
  | .pipeWrite i => aiwassCloseWrite s i
  | .socket i => antennaClose s i
  | .channel i =>
    match n with
    | 0 => s
    | n + 1 => incClose (releaseFdBackend n) s i
  | .event t i => cellClose t s i
  | .ptyMaster i => srCloseMaster s i
  | .ptySlave i => srCloseSlave s i

theorem releaseFdBackend_eq (n : Nat) (s : State) (f : Fd) :
    releaseFdBackend n s f = f.names.elim s (closeObj n s) := by
  unfold releaseFdBackend Fd.names at'
  cases n <;> cases f.kind <;> simp only [Option.elim_map] <;>
    first | rfl | (cases slot kMaxChannels f.sockIdx <;> rfl)

theorem maybeFree_setPipe (s : State) (i : Fin kMaxAiwass) (a : Aiwass) :
    maybeFree (s.setPipe i a) i =
      if a.readRefs ≠ 0 ∨ a.writeRefs ≠ 0 then s.setPipe i a else s.setPipe i {} := by
  simp only [maybeFree, setPipe, update_self, update_idem]

/-- A reference of an object other than a channel is dropped.  A listener with waiting connections
does not lose its last one. -/
theorem closeObj_spec (hs : Sound s Z) (hpos : 0 < refs s o) (hchan : ∀ i, o ≠ .channel i)
    (hwait : refs s o = 1 → waiting s o = 0) (n : Nat) :
    Sound (closeObj n s o) Z ∧ Recount s (closeObj n s o) o (refs s o - 1) := by
  cases o with
  | channel i => exact absurd rfl (hchan i)
  | pipeRead i | pipeWrite i =>
    simp only [refs] at hpos
    have huse : (s.pipes i).inUse = true := (hs.pipes i).2 (by omega)
    simp only [closeObj, aiwassCloseRead, aiwassCloseWrite, huse, if_true, maybeFree_setPipe]
    split
    · refine ⟨hs.setPipe (by simp only [Aiwass.Ok, true_iff]; omega), ?_⟩
      first | exact recount_pipeRead rfl | exact recount_pipeWrite rfl
    · rename_i hzero
      refine ⟨hs.setPipe (by simp [Aiwass.Ok]), ?_⟩
      simp only [not_or, not_not] at hzero
      simp only [refs, hzero]
      first | exact recount_pipeRead hzero.2.symm | exact recount_pipeWrite hzero.1.symm
  | socket i =>
    have hok := hs.antennas i
    simp only [refs] at hpos hwait
    have huse : (s.antennas i).proto ≠ .free := hok.used.2 hpos
    simp only [closeObj, antennaClose, huse, if_false]
    split
    · rename_i hzero
      have hq : (s.antennas i).acceptQueue = [] := List.length_eq_zero_iff.1 (hwait (by omega))
      simp only [refs]
      rw [hzero]
      exact ⟨hs.setAntenna ⟨by simp, by simp, by simp, by simp⟩, recount_socket hq.symm⟩
    · rename_i hzero
      exact ⟨hs.setAntenna ⟨by simp only [huse, ne_eq, not_false_iff, true_iff]; omega,
        fun h => absurd h hzero, hok.queue, hok.backlog⟩, recount_socket rfl⟩
  | event t i =>
    have huse : (s.events t i).inUse = true := (hs.events t i).2 hpos
    simp only [closeObj, cellClose, huse, if_true]
    split
    · rename_i hzero
      simp only [refs]
      rw [hzero]
      exact ⟨hs.setEvent (by simp [Cell.Ok]), recount_event⟩
    · exact ⟨hs.setEvent (by simp only [Cell.Ok, true_iff]; omega), recount_event⟩
  | ptyMaster i | ptySlave i =>
    simp only [refs] at hpos
    have huse : (s.relays i).inUse = true := (hs.relays i).2 (by omega)
    simp only [closeObj, srCloseMaster, srCloseSlave, huse, if_true]
    split
    · rename_i hzero
      refine ⟨hs.setRelay (by simp [Relay.Ok]), ?_⟩
      simp only [refs, hzero]
      first | exact recount_ptyMaster hzero.2.symm | exact recount_ptySlave hzero.2.symm
    · refine ⟨hs.setRelay (by simp only [Relay.Ok, true_iff]; omega), ?_⟩
      first | exact recount_ptyMaster rfl | exact recount_ptySlave rfl

end IndexOS.Descriptors
