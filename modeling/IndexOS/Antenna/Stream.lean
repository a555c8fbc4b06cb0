import IndexOS.Antenna.Receive
import IndexOS.Lib.Traces

/-!
# The byte stream of a TCP socket

The peer sends a stream of bytes and a FIN, cut into segments in any way; segments are lost,
repeated and reordered.  What the socket returns is the beginning of the stream, and the FIN counts
when all of it has been put into the ring.  Sequence numbers are positions in the stream modulo
`2 ^ 32`, so a segment has to arrive before the stream has gone round once; and a FIN must not come with
data while the ring is full.

* `Flow`, `Doing`, `Flow.step` — a socket, what it has returned, and what happens to it;
* `Faithful` — the property;
* `Timely` — the segment, and what is parked, is not a whole turn of the sequence numbers away;
* `FinAlone` — a FIN that is taken brings no data;
* `Core` — the part of the invariant that putting bytes into the ring keeps;
* `receives` — the main theorem.
-/

set_option autoImplicit false

namespace IndexOS.Antennas

open List RingBuffer
open Function (update update_of_ne update_self)
open Traces (Always EachStep always_iff_eachStep)

/-- The connection takes data. -/
def Antenna.Receives (a : Antenna) : Prop :=
  a.tcpState = .established ∨ a.tcpState = .finWait1 ∨ a.tcpState = .finWait2

/-- A socket, the bytes it has returned, and where in the stream the parked segments begin. -/
structure Flow where
  sock : Antenna
  returned : List UInt8 := []
  parkedAt : Fin kAntennaOooSlots → Nat := fun _ => 0

inductive Doing where
  /-- a segment with the `n` bytes from `p` on -/
  | segment (p n : Nat) (flags : Flags) (ack : UInt32)
  | recv (cap : Nat)
  | send (chunk : List UInt8) (now : Nat)
  | shut
  | timer (now : Nat)

section Stream

variable (S : List UInt8) (base : UInt32) (self : Slot)

/-- The segment with the `n` bytes of the stream from `p` on; only the last one can have the FIN. -/
def slice (a : Antenna) (p n : Nat) (flags : Flags) (ack : UInt32) : Segment where
  srcIp := a.remoteIp
  srcPort := a.remotePort
  dstPort := a.localPort
  flags := { flags with fin := flags.fin && p + ((S.drop p).take n).length = S.length }
  seq := base + UInt32.ofNat p
  ack := ack
  payload := (S.drop p).take n

/-- Where the parked segments begin after a segment from `p` on has made `a` to `b`. -/
def placed (a b : Antenna) (p : Nat) (parkedAt : Fin kAntennaOooSlots → Nat)
    (k : Fin kAntennaOooSlots) : Nat :=
  if (a.ooo k).data = [] ∧ (b.ooo k).data ≠ [] then p else parkedAt k

namespace Flow

/-- How many bytes of the stream have been put into the ring. -/
def stored (w : Flow) : Nat := w.returned.length + w.sock.rx.avail

/-- The socket after a segment from `p` on. -/
def hear (w : Flow) (p : Nat) (sock : Antenna) : Flow :=
  { w with sock := sock, parkedAt := placed w.sock sock p w.parkedAt }

def step (w : Flow) : Doing → Flow
  | .segment p n flags ack => w.hear p (w.sock.handle self [] (slice S base w.sock p n flags ack)).1
  | .recv cap =>
    { w with sock := (w.sock.take cap).2.1, returned := w.returned ++ (w.sock.take cap).1 }
  | .send chunk now =>
    if w.sock.tcpState = .established ∨ w.sock.tcpState = .closeWait then
      { w with sock := (w.sock.stage chunk now).1 }
    else w
  | .shut =>
    if w.sock.tcpState = .established then { w with sock := (w.sock.shut .finWait1).1 }
    else if w.sock.tcpState = .closeWait then { w with sock := (w.sock.shut .lastAck).1 }
    else w
  | .timer now => { w with sock := (w.sock.tcpCheckRetransmit now).1 }

/-- What is returned is the beginning of the stream, what is acknowledged has been stored, and the
FIN counts only when everything has been. -/
structure Faithful (w : Flow) : Prop where
  data : (w.returned ++ w.sock.rx.contents) <+: S
  acked : w.sock.rcvNxt = base + UInt32.ofNat (w.stored + if w.sock.peerFin then 1 else 0)
  eof : w.sock.peerFin = true → w.returned ++ w.sock.rx.contents = S

/-- Neither the segment nor a parked one is a turn of the sequence numbers away. -/
def Timely (w : Flow) : Doing → Prop
  | .segment p _ _ _ => p < w.stored + 2 ^ 32 ∧ w.stored + kAntennaRxBytes ≤ p + 2 ^ 32 ∧
    ∀ k, (w.sock.ooo k).data ≠ [] → w.returned.length + kAntennaRxBytes < w.parkedAt k + 2 ^ 32
  | _ => True

/-- A FIN that is taken brings no data: no FIN with data comes in order while the ring is full. -/
def FinAlone (w : Flow) : Doing → Prop
  | .segment p n flags ack => w.sock.Receives → flags.rst = false →
    w.sock.TakesFin (slice S base w.sock p n flags ack) → (S.drop p).take n = []
  | _ => True

end Flow

/-! ## Putting bytes into the ring -/

/-- The ring and the parked segments hold what they should, and the next byte is expected. -/
structure Core (returned : List UInt8) (parkedAt : Fin kAntennaOooSlots → Nat) (a : Antenna) :
    Prop where
  tidy : a.rx.Tidy
  data : (returned ++ a.rx.contents) <+: S
  next : a.rcvNxt = base + UInt32.ofNat (returned.length + a.rx.avail)
  parked : ∀ k, (a.ooo k).data ≠ [] → (a.ooo k).seq = base + UInt32.ofNat (parkedAt k) ∧
    (a.ooo k).data <+: S.drop (parkedAt k) ∧
    parkedAt k < returned.length + a.rx.avail + kAntennaRxBytes

/-- No parked segment is a turn of the sequence numbers behind. -/
def Recent (returned : List UInt8) (parkedAt : Fin kAntennaOooSlots → Nat) (a : Antenna) : Prop :=
  ∀ k, (a.ooo k).data ≠ [] → returned.length + kAntennaRxBytes < parkedAt k + 2 ^ 32

end Stream

theorem append_take_isPrefix {α : Type} {l s src : List α} (h : l <+: s)
    (hsrc : src <+: s.drop l.length) (n : Nat) : (l ++ src.take n) <+: s := by
  obtain ⟨rest, rfl⟩ := h
  rw [drop_left] at hsrc
  exact (prefix_append_right_inj l).2 (( take_prefix n src).trans hsrc)

open Antenna

namespace Core

variable {S : List UInt8} {base : UInt32} {returned : List UInt8}
  {parkedAt : Fin kAntennaOooSlots → Nat}
  {a b : Antenna}

section
variable (h : Core S base returned parkedAt a)
include h

theorem next_of_advances (hadv : a.Advances b) :
    b.rcvNxt = base + UInt32.ofNat (returned.length + b.rx.avail) := by
  have hmono := hadv.mono
  rw [hadv.next, h.next, UInt32.add_assoc, ← UInt32.ofNat_add]
  congr 2
  omega

/-- Nothing but the receiving part counts. -/
theorem sameRx (hsame : a.SameRx b) : Core S base returned parkedAt b := by
  refine ⟨?_, ?_, ?_, ?_⟩
  · rw [hsame.rx]
    exact h.tidy
  · rw [hsame.rx]
    exact h.data
  · rw [hsame.rcvNxt, hsame.rx]
    exact h.next
  · rw [hsame.ooo, hsame.rx]
    exact h.parked

/-- Only the places in use count. -/
theorem parkedAt_congr {parkedAt' : Fin kAntennaOooSlots → Nat}
    (heq : ∀ k, (a.ooo k).data ≠ [] → parkedAt' k = parkedAt k) :
    Core S base returned parkedAt' a :=
  ⟨h.tidy, h.data, h.next, fun k hk => by rw [heq k hk]; exact h.parked k hk⟩

/-- The next bytes of the stream are stored. -/
theorem store (src : List UInt8) (hsrc : src <+: S.drop (returned.length + a.rx.avail)) :
    Core S base returned parkedAt (a.store src) := by
  obtain ⟨htidy, hcontents⟩ := store_spec h.tidy src
  have hadv := store_advances h.tidy.avail_le src
  refine ⟨htidy, ?_, h.next_of_advances hadv, fun k hk => ?_⟩
  · rw [hcontents, ← append_assoc]
    refine append_take_isPrefix h.data ?_ _
    rw [length_append, length_contents]
    exact hsrc
  · obtain ⟨hseq, hdata, hlt⟩ := h.parked k hk
    have hmono := hadv.mono
    exact ⟨hseq, hdata, by omega⟩

end

/-- A place that is in use after a turn has not been touched. -/
theorem drainSlot_ooo {k j : Fin kAntennaOooSlots} (h : ((a.drainSlot k).1.ooo j).data ≠ []) :
    (a.drainSlot k).1.ooo j = a.ooo j := by
  rcases a.drainSlot_cases k with heq | ⟨-, -, heq⟩
  · rw [heq]
  · rw [heq] at h ⊢
    dsimp only at h ⊢
    by_cases hj : j = k
    · rw [hj, update_self] at h
      exact absurd rfl h
    · rw [update_of_ne hj]

section
variable (n : Nat) (h : Core S base returned parkedAt a) (hrecent : Recent returned parkedAt a)
  (k : Fin kAntennaOooSlots)
include h hrecent

/-- A parked segment is stored when its turn comes: it is what comes next in the stream. -/
theorem drainSlot : Core S base returned parkedAt (a.drainSlot k).1 := by
  have hooo := fun j => drainSlot_ooo (a := a) (k := k) (j := j)
  rcases a.drainSlot_cases k with heq | ⟨hne, hseq, heq⟩
  · rw [heq]
    exact h
  · obtain ⟨hseq', hdata, hlt⟩ := h.parked k hne
    have hrec := hrecent k hne
    have havail := h.tidy.avail_le
    have hmod := seq_eq_iff.1 (hseq'.symm.trans (hseq.trans h.next))
    have hplace : parkedAt k = returned.length + a.rx.avail := by
      simp only [kAntennaRxBytes] at hlt hrec havail
      omega
    have hstore := h.store _ (hplace ▸ hdata)
    rw [heq] at hooo ⊢
    refine ⟨hstore.tidy, hstore.data, hstore.next, fun j hj => ?_⟩
    have hsame := hooo j hj
    rw [hsame] at hj ⊢
    exact hstore.parked j hj

omit h in
theorem recent_drainSlot :
    Recent returned parkedAt (a.drainSlot k).1 := fun j hj =>
  hrecent j (by rw [← drainSlot_ooo hj]; exact hj)

theorem drainRounds :
    Core S base returned parkedAt (drainRounds n a) := by
  have hboth := drainRounds_of_slot a n
    (R := fun a b => Core S base returned parkedAt a ∧ Recent returned parkedAt a →
      Core S base returned parkedAt b ∧ Recent returned parkedAt b)
    (fun _ => id) (fun _ _ _ hab hbc => hbc ∘ hab) fun _ k hr =>
    ⟨hr.1.drainSlot hr.2 k, recent_drainSlot hr.2 k⟩
  exact (hboth ⟨h, hrecent⟩).1

omit h hrecent in
theorem drainRounds_ooo {j : Fin kAntennaOooSlots} :
    ((Antenna.drainRounds n a).ooo j).data ≠ [] → (a.ooo j).data ≠ [] :=
  drainRounds_of_slot a n (R := fun a b => (b.ooo j).data ≠ [] → (a.ooo j).data ≠ []) (fun _ => id)
    (fun _ _ _ hab hbc => hab ∘ hbc) fun _ k hj => by rwa [← drainSlot_ooo hj]

end

/-- Places that were in use before keep their segment. -/
theorem placed_of_used {p : Nat} (h : Core S base returned parkedAt b)
    (hused : ∀ k, (b.ooo k).data ≠ [] → (a.ooo k).data ≠ []) :
    Core S base returned (placed a b p parkedAt) b :=
  h.parkedAt_congr fun k hk => if_neg fun hboth => hused k hk hboth.1

section Reach

variable {p : Nat} (h : Core S base returned parkedAt a)
  (hlow : returned.length + a.rx.avail + kAntennaRxBytes ≤ p + 2 ^ 32)
  (hhigh : p < returned.length + a.rx.avail + 2 ^ 32)
include h hlow hhigh

omit hlow in
/-- A segment ahead of the expected number is parked where it belongs. -/
theorem park {payload : List UInt8} (hdata : payload <+: S.drop p) :
    Core S base returned (placed a (a.tcpParkOoo (base + UInt32.ofNat p) payload) p parkedAt)
      (a.tcpParkOoo (base + UInt32.ofNat p) payload) := by
  rcases a.tcpParkOoo_cases (base + UInt32.ofNat p) payload with heq | ⟨k, hfree, hwindow, heq⟩
  · rw [heq]
    exact h.placed_of_used fun _ hk => hk
  · have hplace : p < returned.length + a.rx.avail + kAntennaRxBytes := by
      rw [h.next] at hwindow
      simp only [UInt32.toNat_sub, UInt32.toNat_add, UInt32.toNat_ofNat'] at hwindow ⊢
      omega
    rw [heq]
    refine ⟨h.tidy, h.data, h.next, fun j hj => ?_⟩
    by_cases hjk : j = k
    · have hself : update a.ooo k ⟨base + UInt32.ofNat p, payload⟩ j =
          ⟨base + UInt32.ofNat p, payload⟩ := by rw [hjk, update_self]
      rw [placed, if_pos ⟨hjk ▸ hfree, hj⟩]
      dsimp only
      rw [hself]
      exact ⟨rfl, hdata, hplace⟩
    · have hother : update a.ooo k ⟨base + UInt32.ofNat p, payload⟩ j = a.ooo j :=
        update_of_ne hjk _ _
      dsimp only at hj ⊢
      rw [hother] at hj ⊢
      rw [placed, if_neg fun hboth => hj hboth.1]
      exact h.parked j hj

/-- A segment within reach that begins with the expected number is the next of the stream. -/
theorem place_eq (hseq : base + UInt32.ofNat p = a.rcvNxt) : p = returned.length + a.rx.avail := by
  have hmod := seq_eq_iff.1 (hseq.trans h.next)
  simp only [kAntennaRxBytes] at hlow
  omega

theorem onPayload (hrecent : Recent returned parkedAt a) {seg : Segment}
    (hseq : seg.seq = base + UInt32.ofNat p) (hdata : seg.payload <+: S.drop p) (self : Slot) :
    Core S base returned (placed a (a.onPayload self seg).1 p parkedAt)
      (a.onPayload self seg).1 := by
  rw [Antenna.onPayload]
  split
  · exact h.placed_of_used fun _ hk => hk
  split
  next horder =>
    have hplace := h.place_eq hlow hhigh (hseq ▸ horder)
    have hdrained := (h.store _ (hplace ▸ hdata)).drainRounds (kAntennaOooSlots + 1) hrecent
    exact (hdrained.sameRx (tcpSendAck_sameRx _)).placed_of_used fun k hk =>
      drainRounds_ooo (a := a.store seg.payload) _ hk
  split
  · rw [hseq]
    exact (h.park hhigh hdata).sameRx (tcpSendAck_sameRx _)
  · exact (h.sameRx (tcpSendAck_sameRx _)).placed_of_used fun _ hk => hk

end Reach

end Core

/-! ## The switch -/

namespace Antenna

variable {a : Antenna} (self : Slot) (seg : Segment)

/-- The connection takes no data, now or later. -/
def Idle (a : Antenna) : Prop := a.tcpState ≠ .synSent ∧ a.tcpState ≠ .synRcvd ∧ ¬ a.Receives

theorem handle_of_receives (h : a.Receives) (hrst : seg.flags.rst = false) (out : List Effect) :
    (a.handle self out seg).1 = (((a.onAck seg).onPayload self seg).1.onFin self seg).1 := by
  rw [handle, if_neg (by simp [hrst])]
  rcases h with h | h | h <;> rw [h]

theorem handle_of_idle (h : a.Idle) (hrst : seg.flags.rst = false) (out : List Effect) :
    SameRx a (a.handle self out seg).1 ∧ (a.handle self out seg).1.Idle := by
  obtain ⟨hsent, hrcvd, hnot⟩ := h
  have hsame : SameRx a a ∧ a.Idle := ⟨SameRx.refl a, hsent, hrcvd, hnot⟩
  have hclosed : SameRx a { a with tcpState := .closed } ∧ Idle { a with tcpState := .closed } :=
    ⟨⟨rfl, rfl, rfl, rfl⟩, by simp, by simp, by simp [Receives]⟩
  rw [handle, if_neg (by simp [hrst])]
  split
  next hstate => exact absurd hstate hsent
  next hstate => exact absurd hstate hrcvd
  next hstate => exact absurd (Or.inl hstate) hnot
  next hstate => exact absurd (Or.inr (Or.inl hstate)) hnot
  next hstate => exact absurd (Or.inr (Or.inr hstate)) hnot
  iterate 2
    split
    · exact hclosed
    · exact hsame
  all_goals exact hsame

theorem onAck_receives (h : a.Receives) : (a.onAck seg).Receives := by
  rw [onAck]
  split
  · dsimp only
    split <;> split
    · exact Or.inr (Or.inr rfl)
    · exact h
    · exact Or.inr (Or.inr rfl)
    · exact h
  · exact h

/-- The third segment of a handshake, or one that does not matter. -/
theorem handle_of_synRcvd (h : a.tcpState = .synRcvd) (hrst : seg.flags.rst = false)
    (out : List Effect) : (a.handle self out seg).1 = a ∨
      ∃ b, SameRx a b ∧ b.tcpState = .established ∧
        ((a.handle self out seg).1 = b ∨
          (seg.seq = a.rcvNxt ∧ (a.handle self out seg).1 =
            (b.store seg.payload).tcpSendAck.1)) := by
  rw [handle, if_neg (by simp [hrst]), h]
  dsimp only
  split
  · refine Or.inr ⟨{ a with sndUna := seg.ack, txBuf := [], tcpState := .established },
      ⟨rfl, rfl, rfl, rfl⟩,
      rfl, ?_⟩
    split
    next horder => exact Or.inr ⟨horder.2, rfl⟩
    · exact Or.inl rfl
  · exact Or.inl rfl

/-- Taking bytes from the ring touches nothing else. -/
theorem take_spec (h : a.rx.Tidy) (cap : Nat) :
    (a.take cap).2.1.rx.Tidy ∧ a.rx.contents = (a.take cap).1 ++ (a.take cap).2.1.rx.contents ∧
      (a.take cap).2.1.rcvNxt = a.rcvNxt ∧ (a.take cap).2.1.ooo = a.ooo := by
  rw [take]
  split
  · exact ⟨h, rfl, rfl, rfl⟩
  · obtain ⟨htidy, -, hcontents⟩ := takeN_spec (min cap a.rx.avail) h (Nat.min_le_right _ _)
    have hsame := tcpWindowUpdateAck_sameRx { a with rx := (a.rx.takeN (min cap a.rx.avail)).2 }
      (min cap a.rx.avail)
    refine ⟨?_, ?_, hsame.rcvNxt, hsame.ooo⟩
    · rw [hsame.rx]
      exact htidy
    · rw [hsame.rx]
      exact hcontents

end Antenna

/-! ## The invariant -/

variable {a : Antenna}

namespace Flow

variable {S : List UInt8} {base : UInt32} {self : Slot} {w : Flow}

/-- Everything has been received, and nothing more is. -/
structure Ended (S : List UInt8) (base : UInt32) (returned : List UInt8) (a : Antenna) : Prop where
  tidy : a.rx.Tidy
  data : returned ++ a.rx.contents = S
  next : a.rcvNxt = base + UInt32.ofNat (S.length + 1)
  peerFin : a.peerFin = true
  idle : a.Idle

theorem Ended.sameRx {returned : List UInt8} {b : Antenna} (h : Ended S base returned a)
    (hsame : a.SameRx b) (hidle : b.Idle) : Ended S base returned b := by
  refine ⟨?_, ?_, hsame.rcvNxt.trans h.next, hsame.peerFin.trans h.peerFin, hidle⟩
  · rw [hsame.rx]
    exact h.tidy
  · rw [hsame.rx]
    exact h.data

/-- The stream is being received, or has been. -/
structure Inv (S : List UInt8) (base : UInt32) (w : Flow) : Prop where
  opened : w.sock.tcpState ≠ .synSent
  received : (w.sock.peerFin = false ∧ Core S base w.returned w.parkedAt w.sock) ∨
    Ended S base w.returned w.sock

section
variable (h : Inv S base w)
include h

theorem Inv.faithful : Faithful S base w := by
  rcases h.received with ⟨hfin, hcore⟩ | hended
  · refine ⟨hcore.data, ?_, fun heof => nomatch hfin.symm.trans heof⟩
    rw [hcore.next, hfin]
    rfl
  · have hlength : w.stored = S.length := by
      rw [← hended.data, length_append, length_contents, stored]
    refine ⟨hended.data.symm ▸ prefix_rfl, ?_, fun _ => hended.data⟩
    rw [hended.next, hended.peerFin, hlength]
    rfl

/-- A step that has nothing to do with received data. -/
theorem Inv.sameRx {sock : Antenna} (hsame : w.sock.SameRx sock)
    (hopened : sock.tcpState ≠ .synSent) (hidle : w.sock.Idle → sock.Idle) :
    Inv S base { w with sock := sock } := by
  refine ⟨hopened, h.received.imp (fun hcore => ⟨hsame.peerFin.trans hcore.1,
    hcore.2.sameRx hsame⟩) ?_⟩
  exact fun hended => hended.sameRx hsame (hidle hended.idle)

theorem Inv.recv (cap : Nat) : Inv S base (w.step S base self (.recv cap)) := by
  have htidy : w.sock.rx.Tidy :=
    h.received.elim (fun hcore => hcore.2.tidy) fun hended => hended.tidy
  obtain ⟨htidy', hcontents, hnext, hooo⟩ := take_spec htidy cap
  have hstate := w.sock.take_sameState cap
  have hlength := congrArg length hcontents
  rw [length_append, length_contents, length_contents] at hlength
  have hall : w.returned ++ w.sock.rx.contents =
      w.returned ++ (w.sock.take cap).1 ++ (w.sock.take cap).2.1.rx.contents := by
    rw [hcontents, append_assoc]
  have hsum : (w.returned ++ (w.sock.take cap).1).length + (w.sock.take cap).2.1.rx.avail =
      w.returned.length + w.sock.rx.avail := by
    rw [length_append]
    omega
  refine ⟨hstate.tcpState ▸ h.opened, h.received.imp
    (fun hcore => ⟨hstate.peerFin.trans hcore.1, ?_⟩) ?_⟩
  · refine ⟨htidy', hall ▸ hcore.2.data, ?_, ?_⟩
    · dsimp only [step]
      rw [hnext, hsum]
      exact hcore.2.next
    · dsimp only [step]
      rw [hooo, hsum]
      exact hcore.2.parked
  · intro hended
    refine ⟨htidy', hall ▸ hended.data, hnext.trans hended.next,
      hstate.peerFin.trans hended.peerFin, ?_⟩
    have hidle := hended.idle
    rw [Idle, Receives] at ⊢
    dsimp only [step]
    rw [hstate.tcpState]
    exact hidle

/-- A segment that changes nothing of the received data. -/
theorem Inv.hear {sock : Antenna} (hsame : w.sock.SameRx sock)
    (hopened : sock.tcpState ≠ .synSent) (hidle : w.sock.Idle → sock.Idle) (p : Nat) :
    Inv S base (w.hear p sock) := by
  refine ⟨hopened, h.received.imp (fun hcore => ⟨hsame.peerFin.trans hcore.1, ?_⟩) ?_⟩
  · refine (hcore.2.sameRx hsame).placed_of_used fun k hk => ?_
    rwa [hsame.ooo] at hk
  · exact fun hended => hended.sameRx hsame (hidle hended.idle)

end

theorem slice_payload_isPrefix (p n : Nat) : (S.drop p).take n <+: S.drop p := take_prefix _ _

/-- Before anything of a segment is looked at. -/
theorem Inv.core_of_not_idle (h : Inv S base w) (hnot : ¬ w.sock.Idle) :
    w.sock.peerFin = false ∧ Core S base w.returned w.parkedAt w.sock :=
  h.received.resolve_right fun hended => hnot hended.idle

/-- A FIN that is taken brings the stream to its end. -/
theorem ended_of_takesFin (self : Slot) {p n : Nat} {flags : Flags} {ack : UInt32}
    {returned : List UInt8}
    {parkedAt : Fin kAntennaOooSlots → Nat} (h : Core S base returned parkedAt a)
    (hreceives : a.Receives)
    (hfin : a.TakesFin (slice S base w.sock p n flags ack)) (halone : (S.drop p).take n = [])
    (hlow : returned.length + a.rx.avail + kAntennaRxBytes ≤ p + 2 ^ 32)
    (hhigh : p < returned.length + a.rx.avail + 2 ^ 32) :
    Ended S base returned (a.onFin self (slice S base w.sock p n flags ack)).1 := by
  obtain ⟨hflag, hseq, -⟩ := hfin
  have hplace := h.place_eq hlow hhigh hseq
  have hend : S.length = returned.length + a.rx.avail := by
    rw [slice] at hflag
    rw [halone] at hflag
    simp only [Bool.and_eq_true, decide_eq_true_eq, length_nil] at hflag
    omega
  have hdata : returned ++ a.rx.contents = S := by
    refine h.data.eq_of_length ?_
    rw [length_append, length_contents, hend]
  rw [onFin, if_pos ⟨hflag, hseq⟩]
  refine ⟨h.tidy, hdata, ?_, rfl, ?_⟩
  · dsimp only [tcpSendAck]
    rw [h.next, hend, UInt32.add_assoc]
    congr 1
    exact (UInt32.ofNat_add _ 1).symm
  · dsimp only [Idle, Receives]
    rcases hreceives with hs | hs | hs <;> rw [hs] <;> decide

variable (h : Inv S base w)
include h

/-- **The segments of the stream.** -/
theorem Inv.segment {p n : Nat} {flags : Flags} {ack : UInt32}
    (htimely : w.Timely (.segment p n flags ack))
    (halone : w.FinAlone S base (.segment p n flags ack)) :
    Inv S base (w.step S base self (.segment p n flags ack)) := by
  obtain ⟨hhigh, hlow, hrecent⟩ := htimely
  let seg := slice S base w.sock p n flags ack
  have hseq : seg.seq = base + UInt32.ofNat p := rfl
  have hdata : seg.payload <+: S.drop p := slice_payload_isPrefix p n
  rw [step]
  cases hrst : flags.rst with
  | true =>
    rw [handle_of_rst self [] seg hrst]
    have hreset : w.sock.SameRx { w.sock with tcpState := .reset } := ⟨rfl, rfl, rfl, rfl⟩
    exact h.hear hreset (by simp) (fun _ => ⟨by simp, by simp, by simp [Receives]⟩) p
  | false =>
    by_cases hreceives : w.sock.Receives
    · obtain ⟨hnofin, hcore⟩ := h.core_of_not_idle fun hidle => hidle.2.2 hreceives
      have hack := w.sock.onAck_sameRx seg
      have hreceives' := onAck_receives seg hreceives
      have hcore' := hcore.sameRx hack
      have hfull : (w.sock.onAck seg).rx.avail ≤ kAntennaRxBytes := hcore'.tidy.avail_le
      rw [handle_of_receives self seg hreceives hrst]
      by_cases hfin : w.sock.TakesFin seg
      · -- the FIN comes alone, so nothing is put before it
        have hempty := halone hreceives hrst hfin
        have hsame : (w.sock.onAck seg).onPayload self seg = (w.sock.onAck seg, []) := by
          rw [onPayload, if_pos]
          exact congrArg length hempty
        rw [hsame]
        have hended : Ended S base w.returned _ := ended_of_takesFin self hcore' hreceives'
          (hack.takesFin.2 hfin) hempty (by rw [hack.rx]; exact hlow) (by rw [hack.rx]; exact hhigh)
        exact ⟨hended.idle.1, Or.inr hended⟩
      · -- the data goes where it belongs, and the FIN does not count
        have hpayload :=
          hcore'.onPayload (by rw [hack.rx]; exact hlow) (by rw [hack.rx]; exact hhigh)
          (by rw [Recent, hack.ooo]; exact hrecent) hseq hdata self
        have hstate := onPayload_sameState (w.sock.onAck seg) self seg
        have hnot : (((w.sock.onAck seg).onPayload self seg).1.onFin self seg).1 =
            ((w.sock.onAck seg).onPayload self seg).1 := by
          rw [onFin, if_neg]
          exact fun htaken => hfin (hack.takesFin.1 ((takesFin_iff hfull self _).1 htaken))
        rw [hnot]
        refine ⟨?_, Or.inl ⟨(hstate.peerFin.trans hack.peerFin).trans hnofin, ?_⟩⟩
        · rw [Flow.hear]
          rw [hstate.tcpState]
          rcases hreceives' with hs | hs | hs <;> rw [hs] <;> decide
        · refine hpayload.parkedAt_congr fun k _ => ?_
          simp only [Flow.hear, placed, hack.ooo]
    · by_cases hrcvd : w.sock.tcpState = .synRcvd
      · obtain ⟨hnofin, hcore⟩ := h.core_of_not_idle fun hidle => hidle.2.1 hrcvd
        have hout : ¬ w.sock.Idle := fun hidle => hidle.2.1 hrcvd
        rcases handle_of_synRcvd self seg hrcvd hrst []
          with heq | ⟨b, hsame, hest, heq | ⟨horder, heq⟩⟩
        · rw [heq]
          exact h.hear (SameRx.refl _) h.opened id p
        · rw [heq]
          exact h.hear hsame (by rw [hest]; decide) (fun hidle => absurd hidle hout) p
        · rw [heq]
          have hplace := hcore.place_eq hlow hhigh horder
          have hstore := (hcore.sameRx hsame).store seg.payload
            (by rw [hsame.rx, ← hplace]; exact hdata)
          refine ⟨?_, Or.inl ⟨hsame.peerFin.trans hnofin, ?_⟩⟩
          · rw [Flow.hear]
            dsimp only [tcpSendAck, store, rxBytesPut]
            rw [hest]
            decide
          · refine (hstore.sameRx (tcpSendAck_sameRx _)).placed_of_used fun k hk => ?_
            rw [← hsame.ooo]
            exact hk
      · have hidle : w.sock.Idle := ⟨h.opened, hrcvd, hreceives⟩
        obtain ⟨hsame, hidle'⟩ := handle_of_idle self seg hidle hrst []
        exact h.hear hsame hidle'.1 (fun _ => hidle') p

/-- **Every step.** -/
theorem Inv.step {e : Doing} (htimely : w.Timely e) (halone : w.FinAlone S base e) :
    Inv S base (w.step S base self e) := by
  cases e with
  | segment p n flags ack => exact h.segment htimely halone
  | recv cap => exact h.recv cap
  | send chunk now =>
    rw [Flow.step]
    split
    · exact h.sameRx ⟨rfl, rfl, rfl, rfl⟩ h.opened id
    · exact h
  | shut =>
    rw [Flow.step]
    split
    next hest =>
      exact h.sameRx ⟨rfl, rfl, rfl, rfl⟩ (by simp [shut]) fun hidle => absurd
        (Or.inl hest) hidle.2.2
    split
    · exact h.sameRx ⟨rfl, rfl, rfl, rfl⟩ (by simp [shut]) fun _ =>
        ⟨by simp [shut], by simp [shut], by simp [Receives, shut]⟩
    · exact h
  | timer now =>
    have hsame := w.sock.tcpCheckRetransmit_sameRx now
    rw [Flow.step]
    rw [tcpCheckRetransmit] at hsame ⊢
    split at hsame
    next hquiet =>
      rw [if_pos hquiet]
      exact h
    next hdue =>
      rw [if_neg hdue]
      split at hsame
      next htries =>
        rw [if_pos htries]
        exact h.sameRx hsame (by simp) fun _ => ⟨by simp, by simp, by simp [Receives]⟩
      next htries =>
        rw [if_neg htries]
        exact h.sameRx hsame h.opened id

/-! ## A FIN with data while the ring is full -/

/-- Then the FIN counts although its data has been dropped. -/
theorem Inv.finAlone {e : Doing} (htimely : w.Timely e)
    (hfaithful : Faithful S base (w.step S base self e)) : w.FinAlone S base e := by
  cases e with
  | segment p n flags ack =>
    intro hreceives hrst hfin
    obtain ⟨hhigh, hlow, -⟩ := htimely
    obtain ⟨-, hcore⟩ := h.core_of_not_idle fun hidle => hidle.2.2 hreceives
    have hack := w.sock.onAck_sameRx (slice S base w.sock p n flags ack)
    have hfull := (hcore.sameRx hack).tidy.avail_le
    have htaken := (takesFin_iff hfull self _).2 (hack.takesFin.2 hfin)
    obtain ⟨hflag, hseq, hroom⟩ := hfin
    by_contra hdata
    have hempty : ¬ (slice S base w.sock p n flags ack).payload.length = 0 := fun hzero =>
      hdata (length_eq_zero_iff.1 hzero)
    have hplace := hcore.place_eq hlow hhigh hseq
    have hadv := onPayload_advances hfull self (slice S base w.sock p n flags ack)
    have hle := hadv.le
    have heof := hfaithful.eof
    rw [Flow.step, handle_of_receives self (slice S base w.sock p n flags ack) hreceives hrst,
      onFin, if_pos htaken] at heof
    have hlength := congrArg length (heof rfl)
    simp only [Flow.hear, tcpSendAck, length_append, length_contents] at hlength
    have hend : p + (slice S base w.sock p n flags ack).payload.length = S.length := by
      rw [slice] at hflag
      simp only [Bool.and_eq_true, decide_eq_true_eq] at hflag
      exact hflag.2
    omega
  | _ => trivial

end Flow

/-- A socket at the beginning of the stream: nothing has been received, and `base` is expected. -/
structure Fresh (base : UInt32) (a : Antenna) : Prop where
  state : a.tcpState = .synRcvd ∨ a.tcpState = .established
  tidy : a.rx.Tidy
  empty : a.rx.avail = 0
  next : a.rcvNxt = base
  noFin : a.peerFin = false
  ooo : ∀ k, (a.ooo k).data = []

/-- A connection that a peer opens begins with the number after its SYN. -/
theorem child_fresh (seg : Segment) (iss : UInt32) : Fresh (seg.seq + 1) (Table.child seg iss) :=
  ⟨Or.inl rfl, tidy_empty _ (by decide), rfl, rfl, rfl, fun _ => rfl⟩

/-- So does one that is opened from here, when the answer to the SYN comes. -/
theorem opened_fresh (ip : Ip) (port : Port) (iss : UInt32) (now : Nat) (self : Slot)
    (out : List Effect)
    {seg : Segment} (hrst : seg.flags.rst = false) (hsyn : seg.flags.syn = true)
    (hack : seg.flags.ack = true)
    (hnum : seg.ack = iss + 1) :
    Fresh (seg.seq + 1)
      ((Table.opened { proto := .tcp, refs := 1 } ip port iss now).handle self out seg).1 := by
  rw [handle, if_neg (by simp [hrst])]
  rw [if_pos ⟨hsyn, hack, hnum⟩]
  exact ⟨Or.inr rfl, tidy_empty _ (by decide), rfl, rfl, rfl, fun _ => rfl⟩

theorem Fresh.inv {S : List UInt8} {base : UInt32} (h : Fresh base a) :
    Flow.Inv S base { sock := a } := by
  refine ⟨?_, Or.inl ⟨h.noFin, h.tidy, ?_, ?_, fun k hk => absurd (h.ooo k) hk⟩⟩
  · rcases h.state with hs | hs <;> rw [hs] <;> decide
  · rw [contents_eq_nil h.empty]
    exact nil_prefix
  · rw [h.next, h.empty]
    simp

/-- **Main theorem.**  Take any stream, any first sequence number and any socket at the beginning of
it.  As long as no segment is a whole turn of the sequence numbers late, the bytes returned are the
beginning of the stream, only stored bytes are acknowledged and the end is not reported early,
exactly if no FIN comes with data, in order, while the ring is full. -/
theorem receives (S : List UInt8) (base : UInt32) (self : Slot) (a : Antenna)
    (hfresh : Fresh base a)
    (es : List Doing) (htimely : EachStep (Flow.step S base self) Flow.Timely { sock := a } es) :
    Always (Flow.step S base self) (Flow.Faithful S base) { sock := a } es ↔
      EachStep (Flow.step S base self) (Flow.FinAlone S base) { sock := a } es :=
  always_iff_eachStep (fun _ h => h.faithful) (fun _ _ h ht ha => h.step ht ha)
    (fun _ _ h ht hf => h.finAlone ht hf) hfresh.inv htimely

/-- The position of the segment is one of the stream. -/
def Within (S : List UInt8) (_ : Flow) : Doing → Prop
  | .segment p _ _ _ => p ≤ S.length
  | _ => True

/-- A stream that is shorter than a turn of the sequence numbers asks nothing of the network. -/
theorem receives_short (S : List UInt8) (hshort : S.length + kAntennaRxBytes < 2 ^ 32)
    (base : UInt32) (self : Slot) (a : Antenna) (hfresh : Fresh base a) (es : List Doing)
    (hwithin : EachStep (Flow.step S base self) (Within S) { sock := a } es) :
    Always (Flow.step S base self) (Flow.Faithful S base) { sock := a } es ↔
      EachStep (Flow.step S base self) (Flow.FinAlone S base) { sock := a } es := by
  have htimely : ∀ (w : Flow) (e : Doing), Flow.Inv S base w → Within S w e → w.Timely e := by
    intro w e h hin
    cases e with
    | segment p n flags ack =>
      have hle := h.faithful.data.length_le
      rw [length_append, length_contents] at hle
      rw [Within] at hin
      simp only [kAntennaRxBytes] at hshort
      simp only [Flow.Timely, Flow.stored, kAntennaRxBytes]
      exact ⟨by omega, by omega, fun _ _ => by omega⟩
    | _ => trivial
  exact always_iff_eachStep (fun _ h => h.faithful)
    (fun w e h hin ha => h.step (htimely w e h hin) ha)
    (fun w e h hin hf => h.finAlone (htimely w e h hin) hf) hfresh.inv hwithin

/-! ## Two runs -/

instance (w : Flow) : (e : Doing) → Decidable (w.Timely e)
  | .segment _ _ _ _ => by
    rw [Flow.Timely]
    infer_instance
  | .recv _ | .send _ _ | .shut | .timer _ => isTrue trivial

instance (S : List UInt8) (base : UInt32) (w : Flow) : (e : Doing) → Decidable (w.FinAlone S base e)
  | .segment _ _ _ _ => by
    rw [Flow.FinAlone, Antenna.Receives]
    infer_instance
  | .recv _ | .send _ _ | .shut | .timer _ => isTrue trivial

/-- The SYN of a peer whose first number is just before the sequence numbers begin anew. -/
def lateSyn : Segment where
  srcIp := ⟨10, 0, 2, 2⟩
  srcPort := 5000
  dstPort := 80
  flags := { syn := true }
  seq := 4294967292

/-- Five bytes out of order, read in two pieces, and a FIN that comes first with data and then
alone. -/
def fiveBytes : List Doing :=
  [.segment 0 0 { ack := true } 1, .segment 2 2 { ack := true } 1, .segment 0 2 { ack := true } 1,
    .recv 3,
    .segment 4 1 { ack := true, fin := true } 1, .segment 5 0 { ack := true, fin := true } 1,
      .recv 10]

theorem fiveBytes_faithful :
    Always (Flow.step [1, 2, 3, 4, 5] 4294967293 0) (Flow.Faithful [1, 2, 3, 4, 5] 4294967293)
      { sock := Table.child lateSyn 0 } fiveBytes := by
  refine (receives _ _ _ _ (child_fresh lateSyn 0) fiveBytes ?_).2 ?_
  · refine ⟨?_, ?_, ?_, ?_, ?_, ?_, ?_, trivial⟩ <;> decide +kernel
  · refine ⟨?_, ?_, ?_, ?_, ?_, ?_, ?_, trivial⟩ <;> decide +kernel

/-- One byte more than the ring has room for. -/
def longStream : List UInt8 := replicate 65537 0

def chunk (k : Nat) : Doing := .segment (1024 * k) 1024 { ack := true } 1

/-- The ring is filled, nobody reads, and the last byte comes together with the FIN. -/
def fullRing : List Doing :=
  (.segment 0 0 { ack := true } 1 :: (range 64).map chunk) ++
    [.segment 65536 1 { ack := true, fin := true } 1]

theorem Antenna.tcpDrainOoo_of_empty (h : ∀ k, (a.ooo k).data = []) : a.tcpDrainOoo = a :=
  drainRounds_of_slot (R := fun a b => (∀ k, (a.ooo k).data = []) → b = a) a _ (fun _ _ => rfl)
    (fun _ _ _ hab hbc ha => (hbc (hab ha ▸ ha)).trans (hab ha))
    (fun a k ha => congrArg Prod.fst
      ((a.drainSlot_cases k).resolve_right fun hdrains => hdrains.1 (ha k))) h

/-- `k` chunks have been stored and nothing else has happened. -/
structure Filled (k : Nat) (w : Flow) : Prop where
  inv : Flow.Inv longStream (lateSyn.seq + 1) w
  state : w.sock.tcpState = .established
  ooo : ∀ j, (w.sock.ooo j).data = []
  avail : w.sock.rx.avail = 1024 * k
  returned : w.returned = []
  noFin : w.sock.peerFin = false

theorem Filled.step {k : Nat} {w : Flow} (h : Filled k w) (hk : k < 64) :
    Filled (k + 1) (w.step longStream (lateSyn.seq + 1) 0 (chunk k)) := by
  have hstored : w.stored =
    1024 * k := by rw [Flow.stored, h.returned, h.avail, length_nil, Nat.zero_add]
  have htimely : w.Timely (chunk k) := by
    refine ⟨?_, ?_, fun j hj => absurd (h.ooo j) hj⟩
    · omega
    · rw [kAntennaRxBytes]
      omega
  have hfin : ¬ w.sock.TakesFin
    (slice longStream (lateSyn.seq + 1) w.sock (1024 * k) 1024 { ack := true } 1) :=
    fun hfin => absurd hfin.1 (by simp [slice])
  have hreceives : w.sock.Receives := Or.inl h.state
  obtain ⟨-, hcore⟩ := h.inv.core_of_not_idle fun hidle => hidle.2.2 hreceives
  have hlength : ((longStream.drop (1024 * k)).take 1024).length = 1024 := by
    rw [length_take, length_drop, longStream, length_replicate]
    omega
  -- the socket after the segment
  generalize hseg :
    slice longStream (lateSyn.seq + 1) w.sock (1024 * k) 1024 { ack := true } 1 = seg at hfin
  have hpayload : seg.payload.length = 1024 := by rw [← hseg]; exact hlength
  have hseq : seg.seq = w.sock.rcvNxt := by
    rw [← hseg, hcore.next, h.returned, h.avail, length_nil, Nat.zero_add]
    rfl
  have hack := w.sock.onAck_sameRx seg
  have hempty : ∀ j, (((w.sock.onAck seg).store seg.payload).ooo j).data = [] := fun j => by
    have : ((w.sock.onAck seg).store seg.payload).ooo = w.sock.ooo := hack.ooo
    rw [this]
    exact h.ooo j
  have hsock : (w.sock.handle 0 [] seg).1 =
      ((w.sock.onAck seg).store seg.payload).tcpSendAck.1 := by
    rw [handle_of_receives 0 seg hreceives (by rw [← hseg]; rfl), onFin, if_neg]
    · rw [onPayload, if_neg (by omega), if_pos (by rw [hack.rcvNxt]; exact hseq),
        tcpDrainOoo_of_empty hempty]
    · exact fun htaken => hfin (hack.takesFin.1
        ((takesFin_iff (hcore.sameRx hack).tidy.avail_le 0 seg).1 htaken))
  have hstep : (w.step longStream (lateSyn.seq + 1) 0 (chunk k)).sock =
      ((w.sock.onAck seg).store seg.payload).tcpSendAck.1 := by
    rw [← hsock, ← hseg]
    rfl
  refine ⟨h.inv.step htimely fun _ _ htaken => absurd htaken (by rw [hseg]; exact hfin), ?_, ?_, ?_,
    h.returned, ?_⟩
  · rw [hstep]
    have hnot : w.sock.tcpState ≠ .finWait1 := by rw [h.state]; decide
    have hstate : (w.sock.onAck seg).tcpState = w.sock.tcpState := by
      rw [onAck]
      split
      · dsimp only
        split <;> split <;> rename_i hfw <;> first | exact absurd hfw.1 hnot | rfl
      · rfl
    exact hstate.trans h.state
  · rw [hstep]
    exact hempty
  · rw [hstep]
    refine (store_avail _ _).trans ?_
    rw [hack.rx, h.avail, kAntennaRxBytes]
    omega
  · rw [hstep]
    exact hack.peerFin.trans h.noFin

theorem filled (k : Nat) (hk : k ≤ 64) :
    Filled k (Traces.run (Flow.step longStream (lateSyn.seq + 1) 0)
      { sock := Table.child lateSyn 0 }
      (.segment 0 0 { ack := true } 1 :: (range k).map chunk)) := by
  induction k with
  | zero =>
    have hinv : Flow.Inv longStream (lateSyn.seq + 1) { sock := Table.child lateSyn 0 } :=
      (child_fresh lateSyn 0).inv
    refine ⟨hinv.step (e := .segment 0 0 { ack := true } 1) ?_ ?_, ?_, ?_, ?_, ?_, ?_⟩
      <;> decide +kernel
  | succ k ih =>
    rw [range_succ, map_append, ← cons_append, Traces.run_append]
    exact (ih (by omega)).step (by omega)

/-- The end is reported before the last byte has been stored. -/
theorem fullRing_endsEarly :
    ¬ Always (Flow.step longStream (lateSyn.seq + 1) 0) (Flow.Faithful longStream (lateSyn.seq + 1))
      { sock := Table.child lateSyn 0 } fullRing := by
  intro h
  have hfilled := filled 64 (by decide)
  have hlast := h.last
  rw [fullRing, Traces.run_append] at hlast
  generalize Traces.run (Flow.step longStream (lateSyn.seq + 1) 0) { sock := Table.child lateSyn 0 }
    (.segment 0 0 { ack := true } 1 :: (range 64).map chunk) = w at hfilled hlast
  have hstored : w.stored = 65536 := by rw [Flow.stored, hfilled.returned, hfilled.avail]; rfl
  have hlength : ((longStream.drop 65536).take 1).length = 1 := by
    rw [length_take, length_drop, longStream, length_replicate]
    rfl
  have htimely : w.Timely (.segment 65536 1 { ack := true, fin := true } 1) := by
    refine ⟨?_, ?_, fun j hj => absurd (hfilled.ooo j) hj⟩ <;> rw [hstored] <;> decide
  have halone := hfilled.inv.finAlone htimely hlast (Or.inl hfilled.state) rfl ?_
  · rw [halone] at hlength
    cases hlength
  · refine ⟨?_, ?_, Or.inr (by rw [hfilled.avail]; decide)⟩
    · rw [slice, hlength, longStream, length_replicate]
      rfl
    · obtain ⟨-, hcore⟩ := hfilled.inv.core_of_not_idle fun hidle => hidle.2.2
        (Or.inl hfilled.state)
      rw [hcore.next, hfilled.returned, hfilled.avail]
      rfl

end IndexOS.Antennas
