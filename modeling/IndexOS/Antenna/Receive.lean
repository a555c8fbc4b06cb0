import IndexOS.Antenna.Table

/-!
# What a socket does with the data of a segment

The sequence number that is expected next counts the bytes that are put into the ring: every
function that moves one moves the other by as much.  A FIN is taken if its segment begins with the
number that is expected after its own data has been put, which is the case if the segment has no
data, but also if the ring has no room for any of it.

* `store_spec` — the ring after some of the bytes have been put;
* `SameRx` — a function that has nothing to do with received data;
* `Advances` — the ring and the number move together;
* `Steady`, `SameState` — what a segment leaves alone;
* `takesFin_iff` — which FINs are taken.
-/

set_option autoImplicit false

namespace IndexOS.Antennas

open Function (update)

/-- Sequence numbers are equal if the positions are, modulo their size. -/
theorem seq_eq_iff {base : UInt32} {p q : Nat} :
    base + UInt32.ofNat p = base + UInt32.ofNat q ↔ p % 2 ^ 32 = q % 2 ^ 32 := by
  rw [UInt32.add_right_inj, ← UInt32.toNat_inj, UInt32.toNat_ofNat', UInt32.toNat_ofNat']

namespace Antenna

/-! ## Bytes into the ring -/

variable (a : Antenna) (k : Fin kAntennaOooSlots) (n : Nat) (self : Slot) (seg : Segment)

theorem store_avail (src : List UInt8) :
    (a.store src).rx.avail = a.rx.avail + min src.length (kAntennaRxBytes - a.rx.avail) := by
  rw [store, rxBytesPut]
  rw [RingBuffer.avail_putAll, List.length_take]
  omega

/-- What is put is the beginning of what is offered. -/
theorem store_spec {a : Antenna} (h : a.rx.Tidy) (src : List UInt8) :
    (a.store src).rx.Tidy ∧ (a.store src).rx.contents =
      a.rx.contents ++ src.take (min src.length (kAntennaRxBytes - a.rx.avail)) := by
  refine RingBuffer.putAll_spec _ h ?_
  have hle := h.avail_le
  rw [List.length_take]
  omega

/-! ## Segments that came too early -/

/-- A place is left alone, or emptied when it is its turn. -/
theorem drainSlot_cases :
    a.drainSlot k = (a, false) ∨
      ((a.ooo k).data ≠ [] ∧ (a.ooo k).seq = a.rcvNxt ∧ a.drainSlot k =
        ({ a.store (a.ooo k).data with ooo := update a.ooo k { a.ooo k with data := [] } },
          true)) := by
  rw [drainSlot]
  split
  next h => exact Or.inr ⟨List.ne_nil_of_length_pos h.1, h.2.1, rfl⟩
  · exact Or.inl rfl

/-- What holds of every turn holds of the loops. -/
theorem drainRounds_of_slot {R : Antenna → Antenna → Prop} (hrefl : ∀ a, R a a)
    (htrans : ∀ a b c, R a b → R b c → R a c) (hslot : ∀ a k, R a (drainSlot a k).1) :
    R a (drainRounds n a) := by
  have hround : ∀ a : Antenna, R a a.drainRound.1 := fun a =>
    List.foldlRecOn _ _ (motive := fun r : Antenna × Bool => R a r.1) (hrefl a)
      fun r hr k _ => htrans _ _ _ hr (hslot r.1 k)
  induction n generalizing a with
  | zero => exact hrefl a
  | succ n ih =>
    rw [drainRounds]
    split
    · exact htrans _ _ _ (hround a) (ih _)
    · exact hround a

theorem tcpParkOoo_cases (seq : UInt32) (payload : List UInt8) :
    a.tcpParkOoo seq payload = a ∨
      ∃ k, (a.ooo k).data = [] ∧ (seq - a.rcvNxt).toNat < kAntennaRxBytes ∧
        a.tcpParkOoo seq payload = { a with ooo := update a.ooo k ⟨seq, payload⟩ } := by
  rw [tcpParkOoo]
  split
  · exact Or.inl rfl
  split
  · exact Or.inl rfl
  next hwindow =>
    split
    · exact Or.inl rfl
    split
    next k hk =>
      have hfree := List.find?_some hk
      exact Or.inr ⟨k, by simpa using hfree, not_le.1 hwindow, rfl⟩
    · exact Or.inl rfl

/-! ## What does not receive -/

structure SameRx (a b : Antenna) : Prop where
  rx : b.rx = a.rx
  rcvNxt : b.rcvNxt = a.rcvNxt
  peerFin : b.peerFin = a.peerFin
  ooo : b.ooo = a.ooo

namespace SameRx

theorem refl : SameRx a a := ⟨rfl, rfl, rfl, rfl⟩

end SameRx

theorem tcpSendAck_sameRx : SameRx a a.tcpSendAck.1 := ⟨rfl, rfl, rfl, rfl⟩

theorem onAck_sameRx : SameRx a (a.onAck seg) := by
  rw [onAck]
  split
  · dsimp only
    split <;> split <;> exact ⟨rfl, rfl, rfl, rfl⟩
  · exact SameRx.refl a

theorem tcpWindowUpdateAck_sameRx : SameRx a (a.tcpWindowUpdateAck n).1 := by
  rw [tcpWindowUpdateAck]
  split
  · exact SameRx.refl a
  split
  · exact a.tcpSendAck_sameRx
  · exact SameRx.refl a

theorem tcpCheckRetransmit_sameRx (now : Nat) : SameRx a (a.tcpCheckRetransmit now).1 := by
  rw [tcpCheckRetransmit]
  split
  · exact SameRx.refl a
  split <;> exact ⟨rfl, rfl, rfl, rfl⟩

/-! ## The ring and the number move together -/

/-- From `a` to `b` as many bytes have been put as the expected number has moved. -/
structure Advances (a b : Antenna) : Prop where
  mono : a.rx.avail ≤ b.rx.avail
  le : b.rx.avail ≤ kAntennaRxBytes
  next : b.rcvNxt = a.rcvNxt + UInt32.ofNat (b.rx.avail - a.rx.avail)

namespace Advances

theorem refl {a : Antenna} (h : a.rx.avail ≤ kAntennaRxBytes) : Advances a a :=
  ⟨Nat.le_refl _, h, by simp⟩

theorem trans {a b c : Antenna} (h : Advances a b) (h' : Advances b c) : Advances a c := by
  have hmono := h.mono
  have hmono' := h'.mono
  refine ⟨hmono.trans hmono', h'.le, ?_⟩
  rw [h'.next, h.next, UInt32.add_assoc, ← UInt32.ofNat_add]
  congr 2
  omega

theorem same {a b : Antenna} (hrx : b.rx = a.rx) (hnext : b.rcvNxt = a.rcvNxt)
    (h : a.rx.avail ≤ kAntennaRxBytes) : Advances a b :=
  ⟨by rw [hrx], by rw [hrx]; exact h, by rw [hrx, hnext]; simp⟩

end Advances

theorem SameRx.advances {a b : Antenna} (h : SameRx a b) (hle : a.rx.avail ≤ kAntennaRxBytes) :
    Advances a b := Advances.same h.rx h.rcvNxt hle

section
variable {a : Antenna} (h : a.rx.avail ≤ kAntennaRxBytes)
include h

theorem store_advances (src : List UInt8) :
    Advances a (a.store src) := by
  have havail := a.store_avail src
  refine ⟨by omega, by omega, ?_⟩
  rw [havail, Nat.add_sub_cancel_left]
  rfl

theorem drainSlot_advances (k : Fin kAntennaOooSlots) :
    Advances a (a.drainSlot k).1 := by
  rcases a.drainSlot_cases k with heq | ⟨-, -, heq⟩ <;> rw [heq]
  · exact Advances.refl h
  · exact (store_advances h _).trans (Advances.same rfl rfl (store_advances h _).le)

theorem tcpDrainOoo_advances : Advances a a.tcpDrainOoo :=
  drainRounds_of_slot (R := fun a b => a.rx.avail ≤ kAntennaRxBytes → a.Advances b) a _
    (fun _ => Advances.refl)
    (fun _ _ _ hab hbc h => (hab h).trans (hbc (hab h).le)) (fun _ k h => drainSlot_advances h k) h

end

theorem tcpParkOoo_rx (seq : UInt32) (payload : List UInt8) :
    (a.tcpParkOoo seq payload).rx = a.rx ∧ (a.tcpParkOoo seq payload).rcvNxt = a.rcvNxt := by
  rcases a.tcpParkOoo_cases seq payload with heq | ⟨k, -, -, heq⟩ <;> rw [heq] <;> exact ⟨rfl, rfl⟩

theorem onPayload_advances {a : Antenna} (h : a.rx.avail ≤ kAntennaRxBytes) (self : Slot)
    (seg : Segment) : Advances a (a.onPayload self seg).1 := by
  rw [onPayload]
  split
  · exact Advances.refl h
  split
  · have hstore := store_advances h seg.payload
    have hdrain := hstore.trans (tcpDrainOoo_advances hstore.le)
    exact hdrain.trans ((tcpSendAck_sameRx _).advances hdrain.le)
  split
  · obtain ⟨hrx, hnext⟩ := a.tcpParkOoo_rx seg.seq seg.payload
    exact Advances.same hrx hnext h
  · exact a.tcpSendAck_sameRx.advances h

/-! ## What receiving leaves alone -/

/-- What no segment changes. -/
structure Frame where
  proto : Proto
  refs : UInt16
  localPort : Port
  remoteIp : Ip
  remotePort : Port
  hasRemote : Bool
  acceptQueue : List Slot
  backlog : Nat

def frame (a : Antenna) : Frame :=
  ⟨a.proto, a.refs, a.localPort, a.remoteIp, a.remotePort, a.hasRemote, a.acceptQueue, a.backlog⟩

/-- The socket is still what it was, except that it may listen no longer; there is nothing to
retransmit if there was nothing. -/
structure Steady (a b : Antenna) : Prop where
  frame : b.frame = a.frame
  listen : b.tcpState = .listen → a.tcpState = .listen
  tx : a.txBuf = [] → b.txBuf = []

namespace Steady

variable {a b c : Antenna}

theorem refl (a : Antenna) : Steady a a := ⟨rfl, id, id⟩

variable (h : Steady a b)
include h

theorem trans (h' : Steady b c) : Steady a c :=
  ⟨h'.frame.trans h.frame, h.listen ∘ h'.listen, h'.tx ∘ h.tx⟩

theorem proto : b.proto = a.proto := congrArg Frame.proto h.frame

theorem refs : b.refs = a.refs := congrArg Frame.refs h.frame

theorem remoteIp : b.remoteIp = a.remoteIp := congrArg Frame.remoteIp h.frame

theorem remotePort : b.remotePort = a.remotePort := congrArg Frame.remotePort h.frame

theorem hasRemote : b.hasRemote = a.hasRemote := congrArg Frame.hasRemote h.frame

theorem acceptQueue : b.acceptQueue = a.acceptQueue := congrArg Frame.acceptQueue h.frame

theorem backlog : b.backlog = a.backlog := congrArg Frame.backlog h.frame

end Steady

theorem tcpSendAck_steady : Steady a a.tcpSendAck.1 := ⟨rfl, id, id⟩

theorem drainSlot_steady : Steady a (a.drainSlot k).1 := by
  rcases a.drainSlot_cases k with heq | ⟨-, -, heq⟩ <;> rw [heq] <;> exact ⟨rfl, id, id⟩

theorem tcpParkOoo_steady (seq : UInt32) (payload : List UInt8) :
    Steady a (a.tcpParkOoo seq payload) := by
  rcases a.tcpParkOoo_cases seq payload with heq | ⟨k, -, -, heq⟩ <;> rw [heq]
    <;> exact ⟨rfl, id, id⟩

theorem tcpWindowUpdateAck_steady : Steady a (a.tcpWindowUpdateAck n).1 := by
  rw [tcpWindowUpdateAck]
  split
  · exact Steady.refl a
  split
  · exact a.tcpSendAck_steady
  · exact Steady.refl a

theorem take_steady (cap : Nat) : Steady a (a.take cap).2.1 := by
  rw [take]
  split
  · exact Steady.refl a
  · refine Steady.trans ?_ (tcpWindowUpdateAck_steady _ _)
    exact ⟨rfl, id, id⟩

theorem tcpCheckRetransmit_steady (now : Nat) : Steady a (a.tcpCheckRetransmit now).1 := by
  rw [tcpCheckRetransmit]
  split
  · exact Steady.refl a
  split
  · exact ⟨rfl, nofun, fun _ => rfl⟩
  · exact ⟨rfl, id, id⟩

theorem onAck_steady : Steady a (a.onAck seg) := by
  rw [onAck]
  split
  · extract_lets acked b
    have hb : Steady a b := by
      dsimp only [b]
      split
      · exact ⟨rfl, id, fun _ => rfl⟩
      · exact ⟨rfl, id, fun h => by rw [h, List.drop_nil]⟩
    split
    · exact hb.trans ⟨rfl, nofun, id⟩
    · exact hb
  · exact Steady.refl a

theorem onPayload_steady : Steady a (a.onPayload self seg).1 := by
  rw [onPayload]
  split
  · exact Steady.refl a
  split
  · have hstore : Steady a (a.store seg.payload) := ⟨rfl, id, id⟩
    have hdrain := drainRounds_of_slot (a.store seg.payload) (kAntennaOooSlots + 1) Steady.refl
      (fun _ _ _ => Steady.trans) drainSlot_steady
    exact (hstore.trans hdrain).trans (tcpSendAck_steady _)
  split
  · exact (a.tcpParkOoo_steady _ _).trans (tcpSendAck_steady _)
  · exact a.tcpSendAck_steady

theorem afterFin_eq_listen {s : TcpState} (h : afterFin s = .listen) : s = .listen := by
  cases s <;> simp_all [afterFin]

theorem onFin_steady : Steady a (a.onFin self seg).1 := by
  rw [onFin]
  split
  · exact ⟨rfl, afterFin_eq_listen, id⟩
  · exact Steady.refl a

theorem handle_steady (out : List Effect) (seg : Segment) : Steady a (a.handle self out seg).1 := by
  have hother : ∀ {b : Antenna}, b.frame = a.frame → b.tcpState ≠ .listen →
      (a.txBuf = [] → b.txBuf = []) → Steady a b :=
    fun hframe hne htx => ⟨hframe, fun h => absurd h hne, htx⟩
  rw [handle]
  split
  · exact hother rfl (by simp) id
  split
  · split
    · exact hother rfl (by simp [tcpSendAck]) fun _ => rfl
    · exact Steady.refl a
  · split
    · dsimp only
      split
      · exact hother rfl (by simp [tcpSendAck, store, rxBytesPut]) fun _ => rfl
      · exact hother rfl (by simp) fun _ => rfl
    · exact Steady.refl a
  iterate 3 exact (a.onAck_steady seg).trans ((onPayload_steady _ self seg).trans
    (onFin_steady _ self seg))
  iterate 2
    · split
      · exact hother rfl (by simp) id
      · exact Steady.refl a
  all_goals exact Steady.refl a

/-! ## The state of the connection -/

/-- The connection is in the same state. -/
structure SameState (a b : Antenna) : Prop where
  tcpState : b.tcpState = a.tcpState
  peerFin : b.peerFin = a.peerFin

namespace SameState

theorem refl : SameState a a := ⟨rfl, rfl⟩

theorem trans {a b c : Antenna} (h : SameState a b) (h' : SameState b c) : SameState a c :=
  ⟨h'.tcpState.trans h.tcpState, h'.peerFin.trans h.peerFin⟩

end SameState

theorem drainSlot_sameState : SameState a (a.drainSlot k).1 := by
  rcases a.drainSlot_cases k with heq | ⟨-, -, heq⟩ <;> rw [heq] <;> exact ⟨rfl, rfl⟩

theorem onPayload_sameState : SameState a (a.onPayload self seg).1 := by
  rw [onPayload]
  split
  · exact SameState.refl a
  split
  · have hstore : SameState a (a.store seg.payload) := ⟨rfl, rfl⟩
    have hdrain := drainRounds_of_slot (a.store seg.payload) (kAntennaOooSlots + 1) SameState.refl
      (fun _ _ _ => SameState.trans) drainSlot_sameState
    exact (hstore.trans hdrain).trans ⟨rfl, rfl⟩
  split
  · rcases a.tcpParkOoo_cases seg.seq seg.payload with heq | ⟨k, -, -, heq⟩ <;> rw [heq]
      <;> exact ⟨rfl, rfl⟩
  · exact ⟨rfl, rfl⟩

theorem take_sameState (cap : Nat) : SameState a (a.take cap).2.1 := by
  rw [take]
  split
  · exact SameState.refl a
  · dsimp only
    rw [tcpWindowUpdateAck]
    split
    · exact ⟨rfl, rfl⟩
    split <;> exact ⟨rfl, rfl⟩

/-! ## Which FINs are taken -/

/-- In order, and without data that could be put. -/
def TakesFin (a : Antenna) (seg : Segment) : Prop :=
  seg.flags.fin = true ∧ seg.seq = a.rcvNxt ∧
    (seg.payload.length = 0 ∨ kAntennaRxBytes ≤ a.rx.avail)

instance (a : Antenna) (seg : Segment) : Decidable (a.TakesFin seg) := by
  rw [TakesFin]
  infer_instance

/-- The expected number is still the one that the segment begins with. -/
theorem onPayload_rcvNxt_iff {a : Antenna} (h : a.rx.avail ≤ kAntennaRxBytes) (self : Slot)
    (seg : Segment) : seg.seq = (a.onPayload self seg).1.rcvNxt ↔
      seg.seq = a.rcvNxt ∧ (seg.payload.length = 0 ∨ kAntennaRxBytes ≤ a.rx.avail) := by
  rw [onPayload]
  split
  next hempty => exact ⟨fun heq => ⟨heq, Or.inl hempty⟩, fun heq => heq.1⟩
  next hdata =>
    split
    next horder =>
      -- some of the data is put, or there is no room
      have hput := store_advances h seg.payload
      have hdrain := tcpDrainOoo_advances hput.le
      have hmono := hdrain.mono
      have hnext := (hput.trans hdrain).next
      have hle := hdrain.le
      rw [store_avail] at hmono
      have hzero : a.rcvNxt = a.rcvNxt + UInt32.ofNat 0 := by simp
      rw [(tcpSendAck_sameRx _).rcvNxt, hnext, horder]
      simp only [kAntennaRxBytes] at hmono hle ⊢
      constructor
      · intro heq
        have hmod := seq_eq_iff.1 (hzero.symm.trans heq)
        exact ⟨trivial, Or.inr (by omega)⟩
      · rintro ⟨-, hfull⟩
        exact hzero.trans (seq_eq_iff.2 (by omega))
    next hother =>
      have hnot : ¬ (seg.seq = a.rcvNxt ∧
        (seg.payload.length = 0 ∨ kAntennaRxBytes ≤ a.rx.avail)) :=
        fun hx => hother hx.1
      refine iff_of_false (fun heq => hother ?_) hnot
      split at heq
      · exact heq.trans ((a.tcpParkOoo_rx _ _).2)
      · exact heq

theorem takesFin_iff {a : Antenna} (h : a.rx.avail ≤ kAntennaRxBytes) (self : Slot)
    (seg : Segment) :
    (seg.flags.fin = true ∧ seg.seq = (a.onPayload self seg).1.rcvNxt) ↔ a.TakesFin seg := by
  rw [onPayload_rcvNxt_iff h, TakesFin]

variable {seg : Segment}

theorem SameRx.takesFin {a b : Antenna} (h : SameRx a b) : b.TakesFin seg ↔ a.TakesFin seg := by
  rw [TakesFin, TakesFin, h.rcvNxt, h.rx]

/-! ## Where a segment leads -/

section Leads

variable {a : Antenna} (self : Slot) (out : List Effect)

theorem handle_of_rst (seg : Segment) (hrst : seg.flags.rst = true) :
    a.handle self out seg = ({ a with tcpState := .reset }, []) := by
  rw [handle, if_pos hrst]

theorem onAck_established (h : a.tcpState = .established) (seg : Segment) :
    (a.onAck seg).tcpState = .established := by
  rw [onAck]
  split
  · extract_lets acked b
    have hb : b.tcpState = .established := by
      dsimp only [b]
      split <;> exact h
    rw [if_neg fun hx => absurd (hb.symm.trans hx.1) (by decide)]
    exact hb
  · exact h

/-- An established connection stays so until a FIN is taken. -/
theorem handle_of_established (h : a.tcpState = .established) (hring : a.rx.avail ≤ kAntennaRxBytes)
    (hrst : seg.flags.rst = false) :
    (a.handle self out seg).1.tcpState = (if a.TakesFin seg then .closeWait else .established) ∧
      (a.handle self out seg).1.rx.avail ≤ kAntennaRxBytes := by
  have hack := a.onAck_sameRx seg
  have hring' : (a.onAck seg).rx.avail ≤ kAntennaRxBytes := by rw [hack.rx]; exact hring
  have hstate := (onPayload_sameState (a.onAck seg) self seg).tcpState.trans
    (onAck_established h seg)
  have hle := (onPayload_advances hring' self seg).le
  have hfin := (takesFin_iff hring' self seg).trans hack.takesFin
  rw [handle, if_neg (by simp [hrst]), h]
  dsimp only
  rw [onFin]
  by_cases htakes : a.TakesFin seg
  · rw [if_pos (hfin.2 htakes), if_pos htakes]
    rw [hstate]
    exact ⟨rfl, hle⟩
  · rw [if_neg fun hx => htakes (hfin.1 hx), if_neg htakes]
    exact ⟨hstate, hle⟩

/-- The third segment of a handshake establishes the connection. -/
theorem handle_of_third (h : a.tcpState = .synRcvd) (hring : a.rx.avail ≤ kAntennaRxBytes)
    (hrst : seg.flags.rst = false) (hack : seg.flags.ack = true ∧ seg.ack = a.sndNxt) :
    (a.handle self out seg).1.tcpState = .established ∧
      (a.handle self out seg).1.rx.avail ≤ kAntennaRxBytes := by
  rw [handle, if_neg (by simp [hrst]), h]
  dsimp only
  rw [if_pos hack]
  split
  · refine ⟨rfl, ?_⟩
    exact (store_advances hring
      seg.payload).le
  · exact ⟨rfl, hring⟩

theorem handle_of_not_third (h : a.tcpState = .synRcvd) (hrst : seg.flags.rst = false)
    (hack : ¬ (seg.flags.ack = true ∧ seg.ack = a.sndNxt)) : (a.handle self out seg).1 = a := by
  rw [handle, if_neg (by simp [hrst]), h]
  rw [if_neg hack]

end Leads

end Antenna
end IndexOS.Antennas
