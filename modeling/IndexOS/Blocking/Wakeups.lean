import IndexOS.Blocking.Objects
import IndexOS.Lib.Rendezvous

/-!
# Which sleepers are woken

The calls and producers of `IndexOS.Blocking.Objects` as a `Rendezvous.Protocol`: one reader, any
number of producers, interleaved step by step.

* `Call.ready` — when an attempt of a call completes, written out; `attempt_isSome`.
* `probesSee` — where a call looks again under the lock, it sees everything that completes it.
* `announced` — every producer announces what it completes, except a reset and the payload of the
  last ACK of a handshake (`Producer.Silent`).
* `run_not_lost` — no wake-up is lost in a run in which the calls without a second look do not fall
  asleep over something that was published after their attempt, and no silent producer reaches a
  reader that is asleep.
* `eventfd_lost` — and without that one is.
* `probing_covered` — calls that all look again need no condition.
-/

set_option autoImplicit false

namespace IndexOS.Blocking

open World
open Function (update_apply update_of_ne update_self)
open Descriptors (AntennaProto TcpState ChannelKind ChannelState EventTable kMaxAiwass kMaxAntennas
  kMaxChannels kMaxRelays)
open Rendezvous

def protocol : Protocol World Call Int Producer Wake where
  attempt := Call.attempt
  probe := Call.probe
  publish := Producer.publish
  leaves := Producer.leaves
  hits w c := w.reaches c.waiter

/-! ## When an attempt completes -/

/-- The attempt of the call completes in this world. -/
def Call.ready : Call → World → Prop
  | .pipeRead i _, w =>
    (w.pipes i).inUse = false ∨ 0 < (w.pipes i).avail ∨ (w.pipes i).writeRefs = 0
  | .unixRead i len, w =>
    (w.channels i).kind = .stream ∧
    (0 < min len (w.channels i).rxAvail ∨ (w.channels i).state = .peerGone)
  | .unixRecvmsg i want, w =>
    want = 0 ∨ (w.channels i).kind ≠ .stream ∨ 0 < (w.channels i).rxAvail ∨
      (w.channels i).state = .peerGone
  | .ptyMasterRead i len, w =>
    (w.relays i).inUse = true ∧ (0 < min len (w.relays i).s2mAvail ∨
      ((w.relays i).slaveEverOpened = true ∧ (w.relays i).slaveRefs = 0 ∧
        (w.relays i).s2mAvail = 0))
  | .ptySlaveRead i len, w =>
    (w.relays i).inUse = true ∧ (0 < min len (w.relays i).m2sAvail ∨
      ((w.relays i).masterRefs = 0 ∧ (w.relays i).m2sAvail = 0))
  | .tcpRead i len, w =>
    (w.sockets i).proto = .tcp ∧ (0 < min len (w.sockets i).rxAvail ∨
      (w.sockets i).peerFin = true ∨ (w.sockets i).tcpState = .reset)
  | .tcpAccept i, w =>
    (w.sockets i).proto = .tcp ∧ (w.sockets i).tcpState = .listen ∧
      ∃ j ∈ (w.sockets i).acceptQueue, (w.sockets j).tcpState = .established
  | .unixAccept i, w =>
    (w.channels i).kind = .stream ∧ (w.channels i).state = .listen ∧ (w.channels i).acceptQueue ≠ []
  | .eventfdRead i len, w =>
    len < 8 ∨ (w.eventfds i).inUse = false ∨ 0 < (w.eventfds i).counter ∨
      (w.eventfds i).nonblock = true
  | .inotifyRead i _, w =>
    (w.inotifys i).inUse = false ∨ (w.inotifys i).events ≠ [] ∨ (w.inotifys i).nonblock = true

open Call

theorem attempt_isSome (c : Call) (w : World) : protocol.completes c w = true ↔ c.ready w := by
  rw [Protocol.completes]
  cases c with
  | pipeRead i len =>
    simp only [protocol, attempt, pipeRead, ready]
    grind
  | unixRead i len =>
    simp only [protocol, attempt, unixRead, incTryRecv, ready]
    grind
  | unixRecvmsg i want =>
    simp only [protocol, attempt, unixRecvmsg, incTryRecv, ready]
    grind
  | ptyMasterRead i len =>
    simp only [protocol, attempt, ptyMasterRead, ready]
    grind
  | ptySlaveRead i len =>
    simp only [protocol, attempt, ptySlaveRead, ready]
    grind
  | tcpRead i len =>
    simp only [protocol, attempt, tcpRead, ready]
    grind
  | tcpAccept i =>
    simp only [protocol, attempt, tcpAccept, ready]
    grind
  | unixAccept i =>
    simp only [protocol, attempt, unixAccept, ready]
    grind
  | eventfdRead i len =>
    simp only [protocol, attempt, eventfdRead, ready]
    grind
  | inotifyRead i len =>
    simp only [protocol, attempt, inotifyRead, ready]
    grind

theorem probesSee : protocol.ProbesSee := by
  intro c ready hprobe w hdone
  rw [attempt_isSome] at hdone
  cases c with
  | pipeRead i len =>
    obtain rfl : (fun w => aiwassReadable w i) = ready := Option.some.inj hprobe
    simp only [ready] at hdone
    simp only [aiwassReadable]
    grind
  | unixRead i len =>
    obtain rfl : (fun w => channelReadable w i) = ready := Option.some.inj hprobe
    simp only [ready] at hdone
    simp only [channelReadable]
    grind
  | ptyMasterRead i len =>
    obtain rfl : (fun w => ptyMasterReadable w i) = ready := Option.some.inj hprobe
    simp only [ready] at hdone
    simp only [ptyMasterReadable]
    grind
  | ptySlaveRead i len =>
    obtain rfl : (fun w => ptySlaveReadable w i) = ready := Option.some.inj hprobe
    simp only [ready] at hdone
    simp only [ptySlaveReadable]
    grind
  | _ => exact nomatch hprobe

/-! ## What producers announce -/

/-- The producers that complete a read without a wake-up. -/
def Producer.Silent : Producer → Prop
  | .tcpReset _ => True
  | .tcpCoalesced _ _ => True
  | _ => False

/-- What `Protocol.Announced` says, in terms of `Call.ready`. -/
theorem announced_iff (a : Producer) : protocol.Announced a ↔
    ∀ c w, a.leaves c = true → ¬ c.ready w → c.ready (a.publish w).1 →
      ∃ x ∈ (a.publish w).2, Wake.reaches c.waiter x = true := by
  have hnot : ∀ c w, protocol.completes c w = false ↔ ¬ c.ready w := fun c w => by
    rw [← attempt_isSome, Bool.not_eq_true]
  simp only [Protocol.Announced, hnot, attempt_isSome]
  rfl

/-! A change of one object is noticed only by the calls on that object. -/

variable {c : Call} {w : World}

theorem ready_setChannel {i : Fin kMaxChannels} {x : Channel} (h : c.ready (w.setChannel i x)) :
    c.ready w ∨ (∃ len, c = .unixRead i len) ∨ (∃ want, c = .unixRecvmsg i want) ∨
      c = .unixAccept i := by
  cases c with
  | unixRead j len =>
    by_cases hj : j = i
    · exact Or.inr (Or.inl ⟨len, by rw [hj]⟩)
    · exact Or.inl (by simpa [ready, setChannel, hj] using h)
  | unixRecvmsg j want =>
    by_cases hj : j = i
    · exact Or.inr (Or.inr (Or.inl ⟨want, by rw [hj]⟩))
    · exact Or.inl (by simpa [ready, setChannel, hj] using h)
  | unixAccept j =>
    by_cases hj : j = i
    · exact Or.inr (Or.inr (Or.inr (by rw [hj])))
    · exact Or.inl (by simpa [ready, setChannel, hj] using h)
  | _ => exact Or.inl h

variable {len : Nat} {ws : List Wake} {i : Fin kMaxRelays} {s : Config World Call Wake}

/-- A socket is noticed by who reads from it and, once its handshake is complete, by who accepts
from a listener that has it queued. -/
theorem ready_setSocket {i : Fin kMaxAntennas} {a : Socket} (h : c.ready (w.setSocket i a))
    (hlisten : a.tcpState = .listen → (w.sockets i).proto = .tcp ∧
      (w.sockets i).tcpState = .listen ∧ a.acceptQueue = (w.sockets i).acceptQueue) :
    c.ready w ∨ (∃ len, c = .tcpRead i len) ∨ (a.tcpState = .established ∧
      ∃ l, c = .tcpAccept l ∧ (w.sockets l).proto = .tcp ∧ (w.sockets l).tcpState = .listen ∧
        i ∈ (w.sockets l).acceptQueue) := by
  cases c with
  | tcpRead j len =>
    by_cases hj : j = i
    · exact Or.inr (Or.inl ⟨len, by rw [hj]⟩)
    · exact Or.inl (by simpa [ready, setSocket, hj] using h)
  | tcpAccept l =>
    obtain ⟨hproto, hstate, j, hmem, hj⟩ := h
    simp only [setSocket] at hproto hstate hmem hj
    have hl : (w.sockets l).proto = .tcp ∧ (w.sockets l).tcpState = .listen ∧
        j ∈ (w.sockets l).acceptQueue := by
      by_cases hli : l = i
      · subst hli
        rw [update_self] at hstate hmem
        obtain ⟨h1, h2, h3⟩ := hlisten hstate
        exact ⟨h1, h2, h3 ▸ hmem⟩
      · rw [update_of_ne hli] at hproto hstate hmem
        exact ⟨hproto, hstate, hmem⟩
    by_cases hji : j = i
    · subst hji
      rw [update_self] at hj
      exact Or.inr (Or.inr ⟨hj, l, rfl, hl⟩)
    · rw [update_of_ne hji] at hj
      exact Or.inl ⟨hl.1, hl.2.1, j, hl.2.2, hj⟩
  | _ => exact Or.inl h

/-- A wake-up for the call's own wait is among those given. -/
def Woken (c : Call) (ws : List Wake) : Prop := ∃ x ∈ ws, Wake.reaches c.waiter x = true

theorem woken_ipc {kind : IpcWaitKind} {id : Nat} (h : Wake.ipc kind (some id) ∈ ws)
    (hc : c.waiter = { ipcWaitKind := kind, ipcWaitId := some id }) : Woken c ws :=
  ⟨_, h, by simp [Wake.reaches, hc]⟩

/-- The call is woken if it was not ready before and is now. -/
def Announces (c : Call) (w : World) (r : World × List Wake) : Prop :=
  ¬ c.ready w → c.ready r.1 → Woken c r.2

theorem announces_same : Announces c w (w, ws) := fun hbefore hafter => absurd hafter hbefore

/-- A producer that may find nothing to do. -/
theorem announces_guard {p : Prop} [Decidable p] {r : World × List Wake}
    (h : ¬ p → Announces c w r) : Announces c w (if p then (w, ws) else r) := by
  split
  · exact announces_same
  · exact h ‹_›

theorem announces_setPipe {i : Fin kMaxAiwass} {p : Pipe} (h : .pipeReaders i.val ∈ ws) :
    Announces c w (w.setPipe i p, ws) := by
  intro hbefore hafter
  cases c with
  | pipeRead j len =>
    by_cases hj : j = i
    · exact ⟨_, h, by simp [Wake.reaches, waiter, hj]⟩
    · exact absurd (by simpa [ready, setPipe, hj] using hafter) hbefore
  | _ => exact absurd hafter hbefore

theorem announces_setChannel {i : Fin kMaxChannels} {x : Channel}
    (hrecv : .ipc .channelRecv (some i.val) ∈ ws)
    (haccept : (Call.unixAccept i).ready (w.setChannel i x) → (Call.unixAccept i).ready w) :
    Announces c w (w.setChannel i x, ws) := by
  intro hbefore hafter
  obtain hc | ⟨len, rfl⟩ | ⟨want, rfl⟩ | rfl := ready_setChannel hafter
  · exact absurd hc hbefore
  · exact woken_ipc hrecv rfl
  · exact woken_ipc hrecv rfl
  · exact absurd (haccept hafter) hbefore

theorem announces_setRelay {r : Relay}
    (hmaster : ∀ len, (Call.ptyMasterRead i len).ready (w.setRelay i r) →
      (Call.ptyMasterRead i len).ready w ∨ .ipc .ptyMasterRead (some i.val) ∈ ws)
    (hslave : ∀ len, (Call.ptySlaveRead i len).ready (w.setRelay i r) →
      (Call.ptySlaveRead i len).ready w ∨ .ipc .ptySlaveRead (some i.val) ∈ ws) :
    Announces c w (w.setRelay i r, ws) := by
  intro hbefore hafter
  cases c with
  | ptyMasterRead j len =>
    obtain rfl | hj := eq_or_ne j i
    · exact woken_ipc ((hmaster len hafter).resolve_left hbefore) rfl
    · exact absurd (by simpa [ready, setRelay, hj] using hafter) hbefore
  | ptySlaveRead j len =>
    obtain rfl | hj := eq_or_ne j i
    · exact woken_ipc ((hslave len hafter).resolve_left hbefore) rfl
    · exact absurd (by simpa [ready, setRelay, hj] using hafter) hbefore
  | _ => exact absurd hafter hbefore

theorem announces_setSocket {i : Fin kMaxAntennas} {a : Socket}
    (hlisten : a.tcpState = .listen → (w.sockets i).proto = .tcp ∧
      (w.sockets i).tcpState = .listen ∧ a.acceptQueue = (w.sockets i).acceptQueue)
    (hread : ∀ len, (Call.tcpRead i len).ready (w.setSocket i a) → (Call.tcpRead i len).ready w ∨
      .ipc .antennaRecv (some i.val) ∈ ws)
    (haccept : a.tcpState = .established → ∀ l, (w.sockets l).proto = .tcp →
      (w.sockets l).tcpState = .listen → i ∈ (w.sockets l).acceptQueue →
      (Call.tcpAccept l).ready w ∨
      .ipc .antennaAccept (some l.val) ∈ ws) :
    Announces c w (w.setSocket i a, ws) := by
  intro hbefore hafter
  obtain hc | ⟨len, rfl⟩ | ⟨hest, l, rfl, hproto, hstate, hmem⟩ := ready_setSocket hafter hlisten
  · exact absurd hc hbefore
  · exact woken_ipc ((hread len hafter).resolve_left hbefore) rfl
  · exact woken_ipc ((haccept hest l hproto hstate hmem).resolve_left hbefore) rfl

open Producer

theorem announces_aiwassWrite {i : Fin kMaxAiwass} :
    Announces c w ((aiwassWrite i len).publish w) :=
  announces_guard fun _ => announces_setPipe (by simp)

theorem announces_aiwassCloseWrite {i : Fin kMaxAiwass} :
    Announces c w ((aiwassCloseWrite i).publish w) := by
  refine announces_guard fun _ => ?_
  split
  · exact announces_setPipe (by simp)
  · exact announces_setPipe (by simp)

theorem announces_incSend {i : Fin kMaxChannels} : Announces c w ((incSend i len).publish w) := by
  refine announces_guard fun _ => ?_
  split
  · exact announces_same
  · exact announces_guard fun _ => announces_setChannel (by simp)
      fun h => by simpa [ready, setChannel] using h

/-- The peer of a channel whose last reference is closed reads the end of the stream. -/
theorem announces_incClose {i : Fin kMaxChannels}
    (hleaves : (Producer.incClose i).leaves c = true) :
    Announces c w ((Producer.incClose i).publish w) := by
  -- a reader has a reference of its own, so the channel that goes is not the one it is at
  have hown : ∀ r :
    World × List Wake, Announces c w r → Announces c w (r.1.setChannel i {}, r.2) := by
    intro r hr hbefore hafter
    obtain hc | ⟨len, rfl⟩ | ⟨want, rfl⟩ | rfl := ready_setChannel hafter
    · exact hr hbefore hc
    · simp [leaves] at hleaves
    · simp [leaves] at hleaves
    · simp [leaves] at hleaves
  simp only [publish]
  split
  · split
    · exact hown (w, []) announces_same
    · refine hown (setChannel .., _) (announces_setChannel (by simp) fun h => ?_)
      simp [ready, setChannel] at h
  · exact hown (w, []) announces_same

theorem announces_incConnect {client server child : Fin kMaxChannels} :
    Announces c w ((incConnect client server child).publish w) := by
  refine announces_guard fun hopen hbefore hafter => ?_
  simp only [not_or] at hopen
  cases c with
  | unixAccept l =>
    by_cases hl : l = server
    · subst hl
      exact woken_ipc (by simp) rfl
    · simp only [ready, setChannel, update_apply] at hafter hbefore
      grind
  | unixRead | unixRecvmsg =>
    simp only [ready, setChannel, update_apply] at hafter hbefore
    grind
  | _ => exact absurd hafter hbefore

theorem announces_srMasterWrite : Announces c w ((srMasterWrite i len).publish w) := by
  refine announces_guard fun _ => announces_setRelay (fun len h => Or.inl ?_) fun len _ => Or.inr
    (by simp)
  simpa [ready, setRelay] using h

theorem announces_srSlaveWrite {bytes : List UInt8} :
    Announces c w ((srSlaveWrite i bytes).publish w) := by
  refine announces_guard fun _ => announces_setRelay (fun len _ => Or.inr (by simp)) fun len h =>
    Or.inl ?_
  simpa [ready, setRelay] using h

theorem announces_srOpenSlave : Announces c w ((srOpenSlave i).publish w) := by
  refine announces_guard fun _ => announces_setRelay (fun len h => Or.inl ?_) fun len h => Or.inl ?_
  · simp only [ready, setRelay] at h ⊢
    grind
  · simpa [ready, setRelay] using h

theorem announces_srCloseMaster : Announces c w ((srCloseMaster i).publish w) := by
  refine announces_guard fun _ => announces_setRelay (fun len h => Or.inl ?_) fun len h => ?_
  · simpa [ready, setRelay] using h
  · simp only [ready, setRelay] at h ⊢
    grind

theorem announces_srCloseSlave : Announces c w ((srCloseSlave i).publish w) := by
  refine announces_guard fun _ => announces_setRelay (fun len h => ?_) fun len h => Or.inl ?_
  · simp only [ready, setRelay] at h ⊢
    grind
  · simpa [ready, setRelay] using h

theorem announces_srFree : Announces c w ((Producer.srFree i).publish w) := by
  simp only [publish]
  split
  · refine announces_setRelay (fun len h => ?_) fun len h => ?_
    · simp [ready, setRelay] at h
    · simp [ready, setRelay] at h
  · exact announces_same

/-- A connection that is queued on a SYN cannot be accepted yet. -/
theorem not_ready_tcpSyn {listener child : Fin kMaxAntennas} (hbefore : ¬ c.ready w) :
    ¬ c.ready ((tcpSyn listener child).publish w).1 := by
  intro hafter
  simp only [publish] at hafter
  split at hafter
  · exact hbefore hafter
  next hopen =>
    simp only [not_or, not_not] at hopen
    obtain ⟨htcp, hlisten, hroom, hfree⟩ := hopen
    have hne : child ≠ listener := by
      rintro rfl
      simp [htcp] at hfree
    cases c with
    | tcpRead j len =>
      simp only [ready, setSocket] at hafter hbefore
      grind
    | tcpAccept l =>
      obtain ⟨hproto, hstate, j, hmem, hj⟩ := hafter
      simp only [setSocket, update_apply] at hproto hstate hmem hj
      refine hbefore ?_
      have hchild : l ≠ child := by
        rintro rfl
        simp [hne] at hstate
      have hjchild : j ≠ child := by
        rintro rfl
        simp [hne] at hj
      have hjstate : (w.sockets j).tcpState = .established := by
        split at hj
        next h =>
          rw [h]
          exact hj
        · exact hj
      by_cases hl : l = listener
      · subst hl
        simp only [if_pos, List.mem_append, List.mem_singleton] at hmem
        exact ⟨htcp, hlisten, j, hmem.resolve_right hjchild, hjstate⟩
      · simp only [if_neg hl, if_neg hchild] at hproto hstate hmem
        exact ⟨hproto, hstate, j, hmem, hjstate⟩
    | _ => exact hbefore hafter

/-- The end of the handshake goes to every listener that has the connection queued. -/
theorem announces_tcpEstablish {i : Fin kMaxAntennas} :
    Announces c w ((tcpEstablish i).publish w) := by
  refine announces_guard fun hopen => ?_
  simp only [not_or, not_not] at hopen
  refine announces_setSocket (by simp) (fun len h => Or.inl ?_) fun _ l hproto hstate hmem =>
    Or.inr ?_
  · simp only [ready, setSocket] at h ⊢
    simpa [hopen.2] using h
  · rw [acceptWakes, List.mem_filterMap]
    exact ⟨l, List.mem_finRange l, if_pos ⟨hproto, hstate, hmem⟩⟩

theorem announces_tcpData {i : Fin kMaxAntennas} {len early : Nat} :
    Announces c w ((tcpData i len early).publish w) := by
  refine announces_guard fun hopen => ?_
  simp only [not_or, not_not] at hopen
  have hkeep : (rxBytesPut (rxBytesPut (w.sockets i) len) early).tcpState =
    (w.sockets i).tcpState :=
    rfl
  exact announces_setSocket (fun h => ⟨hopen.1, hkeep ▸ h, rfl⟩) (fun _ _ => Or.inr (by simp))
    fun hest l hproto hstate hmem => Or.inl ⟨hproto, hstate, i, hmem, hkeep ▸ hest⟩

theorem announces_tcpFin {i : Fin kMaxAntennas} : Announces c w ((tcpFin i).publish w) := by
  have hmove : ∀ st : TcpState, st ≠ .listen → st ≠ .established →
      Announces c w (w.setSocket i { w.sockets i with peerFin := true, tcpState := st },
        [.ipc .antennaRecv (some i.val)]) := fun st hlisten hest =>
    announces_setSocket (fun h => absurd h hlisten) (fun _ _ => Or.inr (by simp)) fun h =>
      absurd h hest
  refine announces_guard fun _ => ?_
  split
  · exact hmove _ (by decide) (by decide)
  · exact hmove _ (by decide) (by decide)
  · exact hmove _ (by decide) (by decide)
  · exact announces_same

theorem announces_eventfdWrite {i : Fin EventTable.eventfd.cap} {v : Nat} :
    Announces c w ((eventfdWrite i v).publish w) := by
  refine announces_guard fun _ hbefore hafter => ?_
  generalize (if 2 ^ 64 - 2 - (w.eventfds i).counter < v then 2 ^ 64 - 2
    else (w.eventfds i).counter + v) = counter at hafter
  cases c with
  | eventfdRead j len =>
    simp only [ready, setEventFd] at hafter hbefore
    obtain rfl | hj := eq_or_ne j i
    · have hpos : 0 < counter := by grind
      exact woken_ipc (by simp [hpos]) rfl
    · exact absurd (by simpa [hj] using hafter) hbefore
  | _ => exact absurd hafter hbefore

/-- Events only ever concern readers of inotify descriptors. -/
theorem ready_inotifyEnqueue {i : Fin EventTable.inotify.cap} {total : Nat}
    (h : c.ready (inotifyEnqueue w i total)) : c.ready w ∨ ∃ j len, c = .inotifyRead j len := by
  simp only [inotifyEnqueue] at h
  split at h
  · cases c with
    | inotifyRead j len => exact Or.inr ⟨j, len, rfl⟩
    | _ => exact Or.inl h
  · exact Or.inl h

theorem ready_enqueueAll (matched : List (Fin EventTable.inotify.cap × Nat)) :
    ∀ w : World, c.ready (matched.foldl (fun w m => inotifyEnqueue w m.1 m.2) w) →
      c.ready w ∨ ∃ j len, c = .inotifyRead j len := by
  induction matched with
  | nil => exact fun w h => Or.inl h
  | cons m matched ih =>
    intro w h
    rcases ih _ h with h | h
    · exact ready_inotifyEnqueue h
    · exact Or.inr h

theorem announces_kazakiriNotify {matched : List (Fin EventTable.inotify.cap × Nat)} :
    Announces c w ((kazakiriNotify matched).publish w) := by
  intro hbefore hafter
  obtain h | ⟨j, len, rfl⟩ := ready_enqueueAll matched w hafter
  · exact absurd h hbefore
  · have hsome : matched ≠ [] := by
      rintro rfl
      exact hbefore hafter
    refine ⟨.ipc .inotifyRead none, ?_, by simp [Wake.reaches, waiter]⟩
    simp [publish, hsome]

/-- Every producer but the silent ones announces what it completes. -/
theorem announced {a : Producer} (ha : ¬ a.Silent) : protocol.Announced a := by
  rw [announced_iff]
  intro c w hleaves
  cases a with
  | aiwassWrite i len => exact announces_aiwassWrite
  | aiwassCloseWrite i => exact announces_aiwassCloseWrite
  | incSend i len => exact announces_incSend
  | incClose i => exact announces_incClose hleaves
  | incConnect client server child => exact announces_incConnect
  | srMasterWrite i len => exact announces_srMasterWrite
  | srSlaveWrite i bytes => exact announces_srSlaveWrite
  | srOpenSlave i => exact announces_srOpenSlave
  | srCloseMaster i => exact announces_srCloseMaster
  | srCloseSlave i => exact announces_srCloseSlave
  | srFree i => exact announces_srFree
  | tcpSyn listener child => exact fun hbefore hafter => absurd hafter (not_ready_tcpSyn hbefore)
  | tcpEstablish i => exact announces_tcpEstablish
  | tcpCoalesced | tcpReset => exact absurd trivial ha
  | tcpData i len early => exact announces_tcpData
  | tcpFin i => exact announces_tcpFin
  | eventfdWrite i v => exact announces_eventfdWrite
  | kazakiriNotify matched => exact announces_kazakiriNotify

/-! ## Runs -/

/-- The reader that goes to sleep, or is asleep, in the call is woken by something that is
pending. -/
abbrev WillWake (s : Config World Call Wake) (c : Call) : Prop :=
  ∃ x ∈ s.pending, x.reaches c.waiter = true

/-- What the steps of a run have to meet.  A call that does not look again under the lock parks only
when nothing has been published for it since its attempt, or its wake-up is still to come; and
neither a reset nor the payload of the last ACK of a handshake arrives at a socket in whose read the
reader is parked, unless it is woken for another reason. -/
def Meets (s : Config World Call Wake) : Event Call Producer Wake → Prop
  | .sleep => ∀ c, s.consumer = .refused c → c.probe = none → c.ready s.world → WillWake s c
  | .publish (.tcpReset i) => ∀ len, s.consumer = .asleep (.tcpRead i len) → WillWake s
    (.tcpRead i len)
  | .publish (.tcpCoalesced i got) =>
    0 < got → ∀ len, s.consumer = .asleep (.tcpRead i len) → WillWake s (.tcpRead i len)
  | _ => True

theorem safe_tcpReset {i : Fin kMaxAntennas}
    (h : Meets s (.publish (.tcpReset i))) : Safe protocol s (.publish (.tcpReset i)) := by
  refine Or.inr fun c hasleep hbefore hafter => ?_
  rw [← Bool.not_eq_true, attempt_isSome] at hbefore
  rw [attempt_isSome] at hafter
  simp only [protocol, publish] at hafter
  split at hafter
  · exact absurd hafter hbefore
  · obtain hc | ⟨len, rfl⟩ | ⟨hest, -⟩ := ready_setSocket hafter (by simp)
    · exact absurd hc hbefore
    · exact h len hasleep
    · cases hest

theorem safe_tcpCoalesced {i : Fin kMaxAntennas} {got : Nat}
    (h : Meets s (.publish (.tcpCoalesced i got))) :
    Safe protocol s (.publish (.tcpCoalesced i got)) := by
  refine Or.inr fun c hasleep hbefore hafter => ?_
  rw [← Bool.not_eq_true, attempt_isSome] at hbefore
  rw [attempt_isSome] at hafter
  simp only [protocol, publish] at hafter
  split at hafter
  · exact absurd hafter hbefore
  next hopen =>
    simp only [not_or, not_not] at hopen
    have hkeep : (rxBytesPut (s.world.sockets i) got).tcpState = (s.world.sockets i).tcpState := rfl
    have hcall := ready_setSocket hafter fun hl => by simp [hkeep, hopen.2] at hl
    obtain hc | ⟨len, rfl⟩ | ⟨hest, l, rfl, hproto, hstate, hmem⟩ := hcall
    · exact absurd hc hbefore
    · refine h (Nat.pos_of_ne_zero ?_) len hasleep
      rintro rfl
      exact hbefore (by simpa [setSocket, rxBytesPut] using hafter)
    · exact absurd ⟨hproto, hstate, i, hmem, hopen.2⟩ hbefore

theorem safe_of_meets (s : Config World Call Wake) (e : Event Call Producer Wake) (h : Meets s e) :
    Safe protocol s e := by
  cases e with
  | sleep =>
    intro c hc hprobe hdone
    exact h c hc hprobe ((attempt_isSome c s.world).1 hdone)
  | publish a =>
    cases a with
    | tcpReset i => exact safe_tcpReset h
    | tcpCoalesced i got => exact safe_tcpCoalesced h
    | _ => exact Or.inl (announced id)
  | _ => exact trivial

/-- **Main theorem.**  From any objects, with the reader not yet in a call and nothing pending: in a
run whose steps all meet `Meets`, the reader is never left parked with its call able to complete and
no wake-up pending. -/
theorem run_not_lost (w : World) (es : List (Event Call Producer Wake))
    (h : RunMeets protocol Meets ⟨w, .away, []⟩ es) :
    ¬ Lost protocol (run protocol ⟨w, .away, []⟩ es) :=
  (covered_run probesSee safe_of_meets es _ (covered_of_awake (by simp)) h).not_lost

/-- An eventfd that blocks, with nothing written to it. -/
def eventfdWorld : World := { eventfds := fun _ => { inUse := true } }

def firstEventFd : Fin EventTable.eventfd.cap := ⟨0, by decide⟩

/-- The reader finds the counter 0, the writer writes 1 and wakes nobody, the reader parks. -/
def eventfdRun : List (Event Call Producer Wake) :=
  [.call (.eventfdRead firstEventFd 8), .attempt, .publish (.eventfdWrite firstEventFd 1),
    .wake (.ipc .eventfdRead (some 0)), .wake (.ipc .epollWait none), .sleep]

/-- The read of an eventfd does not look again under the lock, and loses the wake-up of a write that
comes between its attempt and its park. -/
theorem eventfd_lost : Lost protocol (run protocol ⟨eventfdWorld, .away, []⟩ eventfdRun) :=
  ⟨.eventfdRead firstEventFd 8, by decide +kernel, by decide +kernel, by decide +kernel⟩

/-- A pipe with both ends open and nothing in it. -/
def pipeWorld : World := { pipes := fun _ => { inUse := true, readRefs := 1, writeRefs := 1 } }

def firstPipe : Fin kMaxAiwass := ⟨0, by decide⟩

/-- The writer comes between the attempt and the park. -/
def pipeRun : List (Event Call Producer Wake) :=
  [.call (.pipeRead firstPipe 4), .attempt, .publish (.aiwassWrite firstPipe 4),
    .wake (.pipeReaders 0), .sleep]

theorem pipe_run_not_lost : RunMeets protocol Meets ⟨pipeWorld, .away, []⟩ pipeRun ∧
    ¬ Lost protocol (run protocol ⟨pipeWorld, .away, []⟩ pipeRun) := by
  have hmeets : RunMeets protocol Meets ⟨pipeWorld, .away, []⟩ pipeRun := by
    refine ⟨trivial, trivial, trivial, trivial, ?_, trivial⟩
    intro c hc hprobe
    obtain rfl : Call.pipeRead firstPipe 4 = c := Consumer.refused.inj hc
    exact nomatch hprobe
  exact ⟨hmeets, run_not_lost pipeWorld pipeRun hmeets⟩

theorem meets_of_probe (h : ∀ c, s.consumer.op = some c → c.probe ≠ none)
    (e : Event Call Producer Wake) : Meets s e := by
  cases e with
  | sleep => exact fun c hc hprobe => absurd hprobe (h c (congrArg Consumer.op hc))
  | publish a =>
    cases a with
    | tcpReset i => exact fun _ hc => absurd rfl (h _ (congrArg Consumer.op hc))
    | tcpCoalesced i got => exact fun _ _ hc => absurd rfl (h _ (congrArg Consumer.op hc))
    | _ => trivial
  | _ => trivial

/-- A reader whose calls all look again under the lock has a wake-up coming whenever it sleeps and
could complete. -/
theorem probing_covered (w : World) (es : List (Event Call Producer Wake))
    (h : ∀ c, .call c ∈ es → c.probe ≠ none) :
    Covered protocol (run protocol ⟨w, .away, []⟩ es) := by
  have hmeets (s : Config World Call Wake) (hop : ∀ c, s.consumer.op = some c → c.probe ≠ none) :
      RunMeets protocol Meets s es := by
    induction es generalizing s with
    | nil => trivial
    | cons e es ih =>
      refine ⟨meets_of_probe hop e, ih (fun c hc => h c (.tail _ hc)) _ fun c hc => ?_⟩
      rcases op_step hc with hc | rfl
      · exact hop c hc
      · exact h c (.head _)
  exact covered_run probesSee safe_of_meets es _ (covered_of_awake (by simp))
    (hmeets _ (by simp [Consumer.op]))

theorem probing_covered_pipeRun : Covered protocol (run protocol ⟨pipeWorld, .away, []⟩ pipeRun) :=
  probing_covered _ _ (by simp [pipeRun, probe])

end IndexOS.Blocking
