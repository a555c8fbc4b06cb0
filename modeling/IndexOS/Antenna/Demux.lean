import IndexOS.Antenna.Receive
import IndexOS.Lib.Traces

/-!
# Which socket a segment is for

A segment is for the connection with its ports and its peer, or else for the listener on its port; a
datagram is for the socket bound to its port.  The table is searched from the front, so the answer
is only worth something if there is at most one.  For UDP there is: every port is looked up before
it is given away.  The same lookup is used for TCP, where it does not help: it sees UDP sockets
only.

* `Unambiguous`, `DropsRightly` — at most one socket for everything that arrives, and none where it
  is dropped;
* `Clash` — two sockets that must not be in the table at once;
* `Fades` — what most calls and every arrival do to a socket: its ends stay what they are;
* `Clear` — a call does not give a TCP socket ends that another one has;
* `demultiplexes` — the main theorem.
-/

set_option autoImplicit false

namespace IndexOS.Antennas

open Traces (Always EachStep always_and_eachStep_iff)

variable {p : Port} {a b : Antenna} {seg : Segment} {port : Port}

namespace Table

/-! ## The property -/

/-- A TCP socket with this local port and this peer. -/
def Connected (t : Table) (i : Slot) (port : Port) (ip : Ip) (remotePort : Port) : Prop :=
  (t.ants i).proto = .tcp ∧ (t.ants i).localPort = port ∧ isPeer (t.ants i) ip remotePort

def Listens (t : Table) (i : Slot) (port : Port) : Prop :=
  (t.ants i).proto = .tcp ∧ (t.ants i).localPort = port ∧ (t.ants i).tcpState = .listen

def BoundUdp (t : Table) (i : Slot) (port : Port) : Prop :=
  (t.ants i).proto = .udp ∧ (t.ants i).localPort = port

structure Unambiguous (t : Table) : Prop where
  connected : ∀ i j port ip remotePort, port ≠ 0 → t.Connected i port ip remotePort →
    t.Connected j port ip remotePort → i = j
  listening : ∀ i j port, t.Listens i port → t.Listens j port → i = j
  udp : ∀ i j port, port ≠ 0 → t.BoundUdp i port → t.BoundUdp j port → i = j

/-- The segment is for the socket. -/
def Matches (t : Table) (i : Slot) (seg : Segment) : Prop :=
  t.Connected i seg.dstPort seg.srcIp seg.srcPort ∨
    (seg.flags.syn = true ∧ seg.flags.ack = false ∧ t.Listens i seg.dstPort)

/-- The socket can take it: a connection always, a listener if there is room for one more
connection. -/
def Accepts (t : Table) (i : Slot) (seg : Segment) : Prop :=
  t.Connected i seg.dstPort seg.srcIp seg.srcPort ∨
    (seg.flags.syn = true ∧ seg.flags.ack = false ∧ t.Listens i seg.dstPort ∧
      (t.ants i).acceptQueue.length < (t.ants i).backlog ∧ ∃ j, (t.ants j).proto = .free)

def MatchesUdp (t : Table) (i : Slot) (d : Datagram) : Prop :=
  t.BoundUdp i d.dstPort ∧ ((t.ants i).hasRemote = false ∨ isPeer (t.ants i) d.srcIp d.srcPort)

def AcceptsUdp (t : Table) (i : Slot) (d : Datagram) : Prop :=
  d.dstPort ≠ 0 ∧ t.MatchesUdp i d ∧ 8 + d.payload.length ≤ kAntennaRxBytes - (t.ants i).rx.avail

/-- What is dropped as unmatched is for no socket, and no socket can take what is dropped at all. -/
def DropsRightly (t : Table) : Arrival → Prop
  | .tcp seg iss => ((t.deliverTcp seg iss).2 = .unmatched → ∀ i, ¬ t.Matches i seg) ∧
    ((t.deliverTcp seg iss).2 ≠ .delivered → ∀ i, ¬ t.Accepts i seg)
  | .udp d => ((t.deliverUdp d).2 = .unmatched → ∀ i, ¬ t.MatchesUdp i d) ∧
    ((t.deliverUdp d).2 ≠ .delivered → ∀ i, ¬ t.AcceptsUdp i d)
  | .timer _ _ => True

/-! ## Searching -/

variable {t : Table} {i : Slot}

theorem find_eq_none {p : Antenna → Bool} : t.find p = none ↔ ∀ i, p (t.ants i) = false := by
  rw [find, List.find?_eq_none]
  exact ⟨fun h i => Bool.eq_false_iff.2 (h i (List.mem_finRange i)), fun h i _ => by simp [h i]⟩

theorem of_find {p : Antenna → Bool} (h : t.find p = some i) : p (t.ants i) = true :=
  List.find?_some (p := fun i => p (t.ants i)) h

theorem portTaken_eq_false : t.portTaken port = false ↔ ∀ i, ¬ t.BoundUdp i port := by
  rw [portTaken, Option.isSome_eq_false_iff, Option.isNone_iff_eq_none, find_eq_none]
  simp [BoundUdp]

theorem connectionFor_eq_none :
    t.connectionFor seg = none ↔ ∀ i, ¬ t.Connected i seg.dstPort seg.srcIp seg.srcPort := by
  rw [connectionFor, find_eq_none]
  simp [Connected]

theorem listenerFor_eq_none : t.listenerFor seg = none ↔ ∀ i, ¬ t.Listens i seg.dstPort := by
  rw [listenerFor, find_eq_none]
  simp [Listens]

theorem of_connectionFor (h : t.connectionFor seg = some i) :
    t.Connected i seg.dstPort seg.srcIp seg.srcPort := by
  have := of_find h
  simpa [Connected] using this

theorem of_listenerFor (h : t.listenerFor seg = some i) : t.Listens i seg.dstPort := by
  have := of_find h
  simpa [Listens] using this

theorem udpFor_eq_none {d : Datagram} : t.udpFor d = none ↔ ∀ i, ¬ t.MatchesUdp i d := by
  rw [udpFor, Option.or_eq_none_iff, find_eq_none, find_eq_none]
  constructor
  · rintro ⟨hpeer, hfree⟩ i ⟨⟨hudp, hport⟩, hends⟩
    rcases hends with hends | hends
    · exact absurd (hfree i) (by simp [hudp, hport, hends])
    · exact absurd (hpeer i) (by simp [hudp, hport, hends])
  · refine fun h => ⟨fun i => ?_, fun i => ?_⟩
    · have := h i
      simp only [MatchesUdp] at this
      simp only [decide_eq_false_iff_not]
      exact fun hi => this ⟨⟨hi.1, hi.2.1⟩, Or.inr hi.2.2⟩
    · have := h i
      simp only [MatchesUdp] at this
      simp only [decide_eq_false_iff_not]
      exact fun hi => this ⟨⟨hi.1, hi.2.1⟩, Or.inl (by simpa using hi.2.2)⟩

theorem of_udpFor {d : Datagram} (h : t.udpFor d = some i) : t.MatchesUdp i d := by
  rw [udpFor, Option.or_eq_some_iff] at h
  rcases h with h | ⟨-, h⟩
  · have := of_find h
    simp only [decide_eq_true_eq] at this
    exact ⟨⟨this.1, this.2.1⟩, Or.inr this.2.2⟩
  · have := of_find h
    simp only [decide_eq_true_eq] at this
    exact ⟨⟨this.1, this.2.1⟩, Or.inl (by simpa using this.2.2)⟩

theorem of_allocate (h : t.allocate = some i) : (t.ants i).proto = .free := by
  have := of_find h
  simpa using this

/-- A SYN that no connection takes is delivered if the only listener has room. -/
theorem spawn_verdict {l : Slot} {iss : UInt32}
    (hroom : (t.ants l).acceptQueue.length < (t.ants l).backlog)
    (hfree : ∃ j, (t.ants j).proto = .free) : (t.spawn l seg iss).2 = .delivered := by
  rw [spawn, if_neg (by omega)]
  cases halloc : t.allocate with
  | some c => rfl
  | none =>
    obtain ⟨j, hj⟩ := hfree
    exact absurd (find_eq_none.1 halloc j) (by simp [hj])

theorem spawn_ne_unmatched (t : Table) (l : Slot) (seg : Segment) (iss : UInt32) :
    (t.spawn l seg iss).2 ≠ .unmatched := by
  rw [spawn]
  split
  · simp
  · split <;> simp

theorem Unambiguous.dropsRightly (h : t.Unambiguous) (x : Arrival) : t.DropsRightly x := by
  cases x with
  | tcp seg iss =>
    rw [DropsRightly, deliverTcp]
    split
    · exact ⟨nofun, fun hdrop => absurd rfl hdrop⟩
    next hconn =>
      have hnot := connectionFor_eq_none.1 hconn
      split
      next hsyn =>
        split
        next l hl =>
          refine ⟨fun hdrop => absurd hdrop (t.spawn_ne_unmatched l seg iss),
            fun hdrop i haccepts => ?_⟩
          rcases haccepts with hin | ⟨-, -, hlistens, hroom, hfree⟩
          · exact hnot i hin
          · obtain rfl := h.listening i l _ hlistens (of_listenerFor hl)
            exact hdrop (spawn_verdict hroom hfree)
        next hnone =>
          have hnobody := listenerFor_eq_none.1 hnone
          exact ⟨fun _ i hm => hm.elim (hnot i) fun hl => hnobody i hl.2.2,
            fun _ i ha => ha.elim (hnot i) fun hl => hnobody i hl.2.2.1⟩
      next hsyn =>
        exact ⟨fun _ i hm => hm.elim (hnot i) fun hl => hsyn ⟨hl.1, by simp [hl.2.1]⟩,
          fun _ i ha => ha.elim (hnot i) fun hl => hsyn ⟨hl.1, by simp [hl.2.1]⟩⟩
  | udp d =>
    rw [DropsRightly, deliverUdp]
    split
    next l hl =>
      dsimp only
      split
      next hfull =>
        refine ⟨nofun, fun _ i haccepts => ?_⟩
        obtain rfl := h.udp i l _ haccepts.1 haccepts.2.1.1 (of_udpFor hl).1
        exact absurd haccepts.2.2 (by omega)
      · exact ⟨nofun, fun hdrop => absurd rfl hdrop⟩
    next hnone =>
      have hnobody := udpFor_eq_none.1 hnone
      exact ⟨fun _ => hnobody, fun _ i haccepts => hnobody i haccepts.2.1⟩
  | timer _ _ => trivial

end Table

/-! ## Two sockets -/

/-- Two sockets that something could be for both of. -/
def Clash (a b : Antenna) : Prop :=
  a.localPort = b.localPort ∧
    ((a.proto = .tcp ∧ b.proto = .tcp ∧
        ((a.localPort ≠ 0 ∧ a.hasRemote = true ∧ Table.isPeer b a.remoteIp a.remotePort = true) ∨
          (a.tcpState = .listen ∧ b.tcpState = .listen))) ∨
      (a.proto = .udp ∧ b.proto = .udp ∧ a.localPort ≠ 0))

/-- A socket with a peer, or one that listens, has a port. -/
def Placed (a : Antenna) : Prop :=
  a.proto = .tcp → a.hasRemote = true ∨ a.tcpState = .listen → a.localPort ≠ 0

open Table

theorem Table.isPeer_iff {a : Antenna} {ip : Ip} :
    isPeer a ip port = true ↔ a.hasRemote = true ∧ a.remoteIp = ip ∧ a.remotePort = port := by
  simp [isPeer]

theorem Clash.symm (h : Clash a b) : Clash b a := by
  obtain ⟨hport, ⟨ha, hb, ⟨hne, hremote, hpeer⟩ | ⟨hla, hlb⟩⟩ | ⟨ha, hb, hne⟩⟩ := h
  · obtain ⟨hremote', hip, hrport⟩ := isPeer_iff.1 hpeer
    exact ⟨hport.symm, Or.inl ⟨hb, ha, Or.inl ⟨hport ▸ hne, hremote',
      isPeer_iff.2 ⟨hremote, hip.symm, hrport.symm⟩⟩⟩⟩
  · exact ⟨hport.symm, Or.inl ⟨hb, ha, Or.inr ⟨hlb, hla⟩⟩⟩
  · exact ⟨hport.symm, Or.inr ⟨hb, ha, hport ▸ hne⟩⟩

/-- The socket is still what it was, except that it may listen no longer. -/
structure Fades (a b : Antenna) : Prop where
  proto : b.proto = a.proto
  localPort : b.localPort = a.localPort
  remoteIp : b.remoteIp = a.remoteIp
  remotePort : b.remotePort = a.remotePort
  hasRemote : b.hasRemote = a.hasRemote
  listen : b.tcpState = .listen → a.tcpState = .listen

namespace Fades

theorem refl (a : Antenna) : Fades a a := ⟨rfl, rfl, rfl, rfl, rfl, id⟩

theorem clash {a b c : Antenna} (h : Fades a b) (hclash : Clash b c) : Clash a c := by
  obtain ⟨hport, hrest⟩ := hclash
  rw [h.proto, h.localPort, h.hasRemote, h.remoteIp, h.remotePort] at hrest
  refine ⟨h.localPort.symm.trans hport, hrest.imp_left fun htcp => ⟨htcp.1, htcp.2.1, ?_⟩⟩
  exact htcp.2.2.imp_right fun hlisten => ⟨h.listen hlisten.1, hlisten.2⟩

theorem placed (h : Fades a b) (ha : Placed a) : Placed b := by
  intro htcp hends
  rw [h.localPort]
  rw [h.hasRemote] at hends
  exact ha (h.proto ▸ htcp) (hends.imp_right h.listen)

end Fades

theorem Antenna.Steady.fades (h : a.Steady b) : Fades a b :=
  ⟨h.proto, congrArg Antenna.Frame.localPort h.frame, h.remoteIp, h.remotePort, h.hasRemote,
    h.listen⟩

namespace Table

/-! ## The invariant -/

/-- No two sockets clash. -/
structure Inv (t : Table) : Prop where
  apart : ∀ i j, i ≠ j → ¬ Clash (t.ants i) (t.ants j)
  placed : ∀ i, Placed (t.ants i)

variable {t : Table} {i : Slot} {a : Antenna}

theorem unambiguous_iff : t.Unambiguous ↔ ∀ i j, i ≠ j → ¬ Clash (t.ants i) (t.ants j) := by
  constructor
  · rintro h i j hne ⟨hport, ⟨hi, hj, ⟨hp, hremote, hpeer⟩ | ⟨hli, hlj⟩⟩ | ⟨hi, hj, hp⟩⟩
    · exact hne (h.connected i j _ _ _ hp ⟨hi, rfl, isPeer_iff.2 ⟨hremote, rfl, rfl⟩⟩
        ⟨hj, hport.symm, hpeer⟩)
    · exact hne (h.listening i j _ ⟨hi, rfl, hli⟩ ⟨hj, hport.symm, hlj⟩)
    · exact hne (h.udp i j _ hp ⟨hi, rfl⟩ ⟨hj, hport.symm⟩)
  · refine fun h => ⟨?_, ?_, ?_⟩
    · rintro i j port ip remotePort hp ⟨hi, hpi, hpeer⟩ ⟨hj, hpj, hpeer'⟩
      obtain ⟨hremote, rfl, rfl⟩ := isPeer_iff.1 hpeer
      by_contra hne
      exact h i j hne ⟨hpi.trans hpj.symm, Or.inl ⟨hi, hj, Or.inl ⟨hpi ▸ hp, hremote, hpeer'⟩⟩⟩
    · rintro i j port ⟨hi, hpi, hli⟩ ⟨hj, hpj, hlj⟩
      by_contra hne
      exact h i j hne ⟨hpi.trans hpj.symm, Or.inl ⟨hi, hj, Or.inr ⟨hli, hlj⟩⟩⟩
    · rintro i j port hp ⟨hi, hpi⟩ ⟨hj, hpj⟩
      by_contra hne
      exact h i j hne ⟨hpi.trans hpj.symm, Or.inr ⟨hi, hj, hpi ▸ hp⟩⟩

section
variable (t : Table) (i : Slot) (a : Antenna)

theorem set_ants (j : Slot) :
    (t.set i a).ants j = if j = i then a else t.ants j := by
  exact Function.update_apply t.ants i a j

theorem set_closing : (t.set i a).closing = t.closing := rfl

theorem put_ants (r : Antenna × List Effect) :
    (t.put i r).ants = Function.update t.ants i r.1 := rfl

end

theorem Inv.set (h : Inv t) (hp : Placed a) (hapart : ∀ j, j ≠ i → ¬ Clash a (t.ants j)) :
    Inv (t.set i a) := by
  refine ⟨fun j k hne => ?_, fun j => ?_⟩
  · rw [set_ants, set_ants]
    split
    next hj =>
      rw [if_neg (by rw [← hj]; exact hne.symm)]
      exact hapart k (by rw [← hj]; exact hne.symm)
    next hj =>
      split
      next hk => exact fun hclash => hapart j hj hclash.symm
      · exact h.apart j k hne
  · rw [set_ants]
    split
    · exact hp
    · exact h.placed j

/-- Only the sockets count. -/
theorem Inv.congr {t' : Table} (h : Inv t) (heq : t'.ants = t.ants) : Inv t' :=
  ⟨fun i j hne => by rw [heq]; exact h.apart i j hne, fun i => by rw [heq]; exact h.placed i⟩

theorem Inv.fade (h : Inv t) (hfades : Fades (t.ants i) a) : Inv (t.set i a) :=
  h.set (hfades.placed (h.placed i)) fun j hne hclash => h.apart i j hne.symm (hfades.clash hclash)

theorem Inv.put (h : Inv t) {r : Antenna × List Effect} (hfades : Fades (t.ants i) r.1) :
    Inv (t.put i r) :=
  (h.fade hfades).congr rfl

/-- A socket without a port clashes with none. -/
theorem Inv.fresh (h : Inv t) (hremote : a.hasRemote = false) (hlisten : a.tcpState ≠ .listen)
    (hudp : a.proto = .udp → a.localPort = 0) : Inv (t.set i a) := by
  refine h.set (fun _ hends => ?_) fun j _ hclash => ?_
  · rcases hends with hr | hl
    · cases hremote.symm.trans hr
    · exact absurd hl hlisten
  · obtain ⟨-, ⟨-, -, ⟨-, hr, -⟩ | ⟨hl, -⟩⟩ | ⟨hu, -, hne⟩⟩ := hclash
    · cases hremote.symm.trans hr
    · exact hlisten hl
    · exact hne (hudp hu)

/-! ## Ports -/

/-- The port may be given away: it is one, and no UDP socket has it. -/
def Free (t : Table) (port : Port) : Prop := port ≠ 0 ∧ ∀ j, ¬ t.BoundUdp j port

/-- The first port from the counter on that may be given away. -/
def NextFree (t : Table) (port : Port) : Prop :=
  ∃ n < 65536, port = countUp^[n] t.ephemeral ∧ t.Free port ∧ ∀ m < n, ¬ t.Free
    (countUp^[m] t.ephemeral)

theorem free_iff : t.Free port ↔ ¬ (port = 0 ∨ t.portTaken port = true) := by
  rw [Free, ← portTaken_eq_false, not_or, Bool.not_eq_true]

/-- The loop gives the first free port, or nothing. -/
theorem ephemeralFrom_iff {taken : Port → Bool} {free : Port → Prop}
    (hfree : ∀ p, free p ↔ ¬ (p = 0 ∨ taken p = true)) (k : Nat) (g : Port) :
    (∃ n < k, p = countUp^[n] g ∧ free p ∧ ∀ m < n, ¬ free (countUp^[m] g)) ↔
      p ≠ 0 ∧ p = (ephemeralFrom taken k g).1 := by
  induction k generalizing g with
  | zero => exact iff_of_false (by simp) fun h => h.1 h.2
  | succ k ih =>
    rw [ephemeralFrom]
    split
    next htaken =>
      rw [← ih]
      constructor <;> rintro ⟨n, hn, rfl, hp, hmin⟩
      · cases n with
        | zero => exact absurd htaken ((hfree g).1 hp)
        | succ n => exact ⟨n, by omega, rfl, hp, fun m hm => hmin (m + 1) (by omega)⟩
      · refine ⟨n + 1, by omega, rfl, hp, fun m hm => ?_⟩
        cases m with
        | zero => exact fun hg => (hfree g).1 hg htaken
        | succ m => exact hmin m (by omega)
    next hg =>
      constructor
      · rintro ⟨n, hn, rfl, hp, hmin⟩
        cases n with
        | zero => exact ⟨fun hzero => hg (Or.inl hzero), rfl⟩
        | succ n => exact absurd ((hfree g).2 hg) (hmin 0 (by omega))
      · rintro ⟨-, heq⟩
        exact ⟨0, by omega, heq, heq ▸ (hfree g).2 hg, fun m hm => absurd hm (by omega)⟩

theorem nextFree_iff : t.NextFree p ↔ p ≠ 0 ∧ p = t.nextEphemeral.1 :=
  ephemeralFrom_iff (fun _ => free_iff) 65536 t.ephemeral

theorem NextFree.free (h : t.NextFree port) : t.Free port := by
  obtain ⟨-, -, -, hp, -⟩ := h
  exact hp

/-- What a bind to `port` gives, if it succeeds. -/
def Offers (t : Table) (port p : Port) : Prop :=
    if port = 0 then t.NextFree p else p = port ∧ t.Free port

theorem Offers.free {port p : Port} (h : t.Offers port p) : t.Free p := by
  rw [Offers] at h
  split at h
  · exact h.free
  · rw [h.1]
    exact h.2

/-- A bind that succeeds sets the port that is offered, and nothing else. -/
theorem bind_spec (t : Table) (i : Slot) (port : Port) :
    (t.bind i port).1.ants = t.ants ∨
      ∃ p, t.valid i = true ∧ t.Offers port p ∧
        (t.bind i port).1.ants = (t.set i { t.ants i with localPort := p }).ants := by
  rw [bind]
  split
  · exact Or.inl rfl
  next hvalid =>
    rw [Bool.not_eq_true, Bool.not_eq_false] at hvalid
    split
    next hne =>
      split
      · exact Or.inl rfl
      next htaken =>
        refine Or.inr ⟨port, hvalid, ?_, rfl⟩
        rw [Offers, if_neg hne]
        exact ⟨rfl, free_iff.2 (not_or.2 ⟨hne, htaken⟩)⟩
    next hzero =>
      rw [not_not] at hzero
      dsimp only
      split
      · exact Or.inl rfl
      next hsome => exact Or.inr ⟨_,
        hvalid, by rw [Offers, if_pos hzero, nextFree_iff]; exact ⟨hsome, rfl⟩, rfl⟩

theorem bind_eq {port p : Port} (hvalid : t.valid i = true) (h : t.Offers port p) :
    (t.bind i port).1.ants = (t.set i { t.ants i with localPort := p }).ants := by
  rw [bind, if_neg (by simp [hvalid])]
  rw [Offers] at h
  split at h
  next hzero =>
    obtain ⟨hsome, rfl⟩ := nextFree_iff.1 h
    rw [if_neg (not_not.2 hzero)]
    rw [if_neg hsome]
    rfl
  next hne =>
    obtain ⟨rfl, hfree⟩ := h
    rw [if_pos hne, if_neg (not_or.1 (free_iff.1 hfree)).2]

/-- The port that the socket has after an implicit bind: its own, or the next free one. -/
def Keeps (t : Table) (i : Slot) (p : Port) : Prop :=
  if (t.ants i).localPort = 0 then t.NextFree p else p = (t.ants i).localPort

theorem implicitBind_spec (t : Table) (i : Slot) :
    ∃ p, (p = 0 ∧ (t.ants i).localPort = 0 ∨ t.Keeps i p) ∧
      (t.implicitBind i).ants = (t.set i { t.ants i with localPort := p }).ants := by
  rw [implicitBind]
  split
  next hzero =>
    refine ⟨t.nextEphemeral.1, ?_, rfl⟩
    by_cases hnone : t.nextEphemeral.1 = 0
    · exact Or.inl ⟨hnone, hzero⟩
    · exact Or.inr (by rw [Keeps, if_pos hzero, nextFree_iff]; exact ⟨hnone, rfl⟩)
  next hne =>
    refine ⟨_, Or.inr (by rw [Keeps, if_neg hne]), ?_⟩
    rw [set, Function.update_eq_self]

theorem implicitBind_eq (h : t.Keeps i p) :
    (t.implicitBind i).ants = (t.set i { t.ants i with localPort := p }).ants := by
  rw [implicitBind]
  rw [Keeps] at h
  split at h
  next hzero =>
    rw [if_pos hzero, (nextFree_iff.1 h).2]
    rfl
  next hne =>
    rw [if_neg hne, h, set, Function.update_eq_self]

theorem Keeps.ne_zero (h : t.Keeps i p) : p ≠ 0 := by
  rw [Keeps] at h
  split at h
  next hzero => exact h.free.1
  next hne => rwa [h]

/-- A UDP socket may have any port that is free. -/
theorem Free.apart (h : t.Free port) (hudp : a.proto = .udp) (hport : a.localPort = port)
    (j : Slot) : ¬ Clash a (t.ants j) := by
  rintro ⟨heq, ⟨htcp, -⟩ | ⟨-, hj, -⟩⟩
  · cases hudp.symm.trans htcp
  · exact h.2 j ⟨hj, heq.symm.trans hport⟩

/-- An implicit bind never clashes. -/
theorem Inv.implicitBind (h : Inv t) (i : Slot) : Inv (t.implicitBind i) := by
  obtain ⟨p, hp, heq⟩ := t.implicitBind_spec i
  refine Inv.congr ?_ heq
  by_cases hzero : (t.ants i).localPort = 0
  · have hends : (t.ants i).proto = .tcp →
      ¬ ((t.ants i).hasRemote = true ∨ (t.ants i).tcpState = .listen) :=
      fun htcp hends => h.placed i htcp hends hzero
    refine h.set (fun htcp hends' => absurd hends' (hends htcp)) fun j _ hclash => ?_
    obtain ⟨heqp, ⟨htcp, -, ⟨-, hr, -⟩ | ⟨hl, -⟩⟩ | ⟨hu, hj, hne⟩⟩ := hclash
    · exact hends htcp (Or.inl hr)
    · exact hends htcp (Or.inr hl)
    · rcases hp with ⟨rfl, -⟩ | hkeeps
      · exact hne rfl
      · rw [Keeps, if_pos hzero] at hkeeps
        exact hkeeps.free.2 j ⟨hj, heqp.symm⟩
  · obtain rfl : p = (t.ants i).localPort := by
      rcases hp with ⟨-, hz⟩ | hkeeps
      · exact absurd hz hzero
      · rwa [Keeps, if_neg hzero] at hkeeps
    exact h.fade (Fades.refl _)

/-! ## The condition -/

/-- No other socket has the ends that the call gives to a TCP socket. -/
def Clear (t : Table) : Event → Prop
  | .bind i port => (t.ants i).proto = .tcp → ∀ p, t.Offers port p →
    ∀ j, j ≠ i → ¬ Clash { t.ants i with localPort := p } (t.ants j)
  | .connect i ip port _ _ => (t.ants i).proto = .tcp → (t.ants i).tcpState = .closed → ∀ p,
    t.Keeps i p → ∀ j, j ≠ i → ¬ t.Connected j p ip port
  | .listen i _ => (t.ants i).proto = .tcp → (t.ants i).tcpState = .closed →
    (t.ants i).localPort ≠ 0 → ∀ j, j ≠ i → ¬ t.Listens j (t.ants i).localPort
  | _ => True

/-! ## Every step -/

theorem Inv.socket (h : Inv t) (proto : Proto) : Inv (t.socket proto).1 := by
  rw [Table.socket]
  split
  · exact h.fresh rfl (by simp) fun _ => rfl
  · exact h

theorem Inv.incRef (h : Inv t) (i : Slot) : Inv (t.incRef i) := by
  rw [Table.incRef]
  split
  · exact h.fade ⟨rfl, rfl, rfl, rfl, rfl, id⟩
  · exact h

theorem Inv.bind (h : Inv t) (hclear : t.Clear (.bind i port)) : Inv (t.bind i port).1 := by
  rcases t.bind_spec i port with hsame | ⟨p, hvalid, hoffers, heq⟩
  · exact h.congr hsame
  refine Inv.congr (h.set (fun _ _ => hoffers.free.1) fun j hne => ?_) heq
  cases hproto : (t.ants i).proto with
  | free => exact absurd hvalid (by simp [valid, hproto])
  | udp => exact hoffers.free.apart (a := { t.ants i with localPort := p }) hproto rfl j
  | tcp => exact hclear hproto p hoffers j hne

theorem tcpConnect_spec (t : Table) (i : Slot) (ip : Ip) (port : Port) (iss : UInt32) (now : Nat) :
    (t.tcpConnect i ip port iss now).1 = t ∨
      (t.tcpConnect i ip port iss now).1 = t.implicitBind i ∨
      ∃ p, (t.ants i).proto = .tcp ∧ (t.ants i).tcpState = .closed ∧ t.Keeps i p ∧
        (t.tcpConnect i ip port iss now).1.ants =
          (t.set i (opened { t.ants i with localPort := p } ip port iss now)).ants := by
  rw [tcpConnect]
  split
  · exact Or.inl rfl
  next hvalid =>
    split
    · exact Or.inl rfl
    next hclosed =>
      obtain ⟨p, hp, heq⟩ := t.implicitBind_spec i
      have hself : (t.implicitBind i).ants i = { t.ants i with localPort := p } := by
        rw [heq, set_ants, if_pos rfl]
      dsimp only
      split
      · exact Or.inr (Or.inl rfl)
      next hport =>
        refine Or.inr (Or.inr ⟨p, not_not.1 (not_or.1 hvalid).2, not_not.1 hclosed, ?_, ?_⟩)
        · rw [hself] at hport
          exact hp.resolve_left fun hzero => hport hzero.1
        · rw [hself, put_ants, heq]
          exact Function.update_idem _ _ _

theorem tcpConnect_eq (ip : Ip) (port : Port) (iss : UInt32) (now : Nat)
    (htcp : (t.ants i).proto = .tcp)
    (hclosed : (t.ants i).tcpState = .closed) (hkeeps : t.Keeps i p) :
    (t.tcpConnect i ip port iss now).1.Connected i p ip port ∧
      ∀ j, j ≠ i → (t.tcpConnect i ip port iss now).1.ants j = t.ants j := by
  have heq := implicitBind_eq hkeeps
  have hself : (t.implicitBind i).ants i = { t.ants i with localPort := p } := by
    rw [heq, set_ants, if_pos rfl]
  rw [tcpConnect, if_neg (by simp [valid, htcp]), if_neg (by simp [hclosed])]
  rw [if_neg (by rw [hself]; exact hkeeps.ne_zero), hself]
  refine ⟨?_, fun j hne => ?_⟩
  · rw [Connected, put_ants, Function.update_self]
    exact ⟨htcp, rfl, isPeer_iff.2 ⟨rfl, rfl, rfl⟩⟩
  · rw [put_ants, Function.update_of_ne hne, heq, set_ants, if_neg hne]

theorem Inv.connect (h : Inv t) {ip : Ip} {iss : UInt32} {now : Nat}
    (hclear : t.Clear (.connect i ip port iss now)) : Inv (t.connect i ip port iss now).1 := by
  rw [Table.connect]
  split
  · exact h
  next hvalid =>
    split
    next htcp =>
      rcases t.tcpConnect_spec i ip port iss now with hsame | hbound | ⟨p, -, hclosed, hkeeps, heq⟩
      · rw [hsame]
        exact h
      · rw [hbound]
        exact h.implicitBind i
      refine Inv.congr (h.set (fun _ _ => hkeeps.ne_zero) fun j hne hclash => ?_) heq
      obtain ⟨hport, ⟨-, hj, ⟨-, -, hpeer⟩ | ⟨hl, -⟩⟩ | ⟨hu, -, -⟩⟩ := hclash
      · exact hclear htcp hclosed p hkeeps j hne ⟨hj, hport.symm, hpeer⟩
      · exact absurd hl (by simp [opened])
      · cases htcp.symm.trans hu
    next hudp =>
      have hpeer : Inv
        (t.set i { t.ants i with remoteIp := ip, remotePort := port, hasRemote := true }) := by
        refine h.set (fun htcp => absurd htcp hudp) fun j hne hclash => ?_
        obtain ⟨hport, ⟨htcp, -⟩ | hu⟩ := hclash
        · exact hudp htcp
        · exact h.apart i j hne.symm ⟨hport, Or.inr hu⟩
      exact hpeer.implicitBind i

theorem tcpListen_spec (t : Table) (i : Slot) (backlog : Nat) :
    (t.tcpListen i backlog).1 = t ∨
      ∃ n, (t.ants i).proto = .tcp ∧ (t.ants i).tcpState = .closed ∧ (t.ants i).localPort ≠ 0 ∧
        (t.tcpListen i backlog).1 = t.set i { t.ants i with tcpState := .listen, backlog :=
          n } := by
  rw [tcpListen]
  split
  · exact Or.inl rfl
  next hvalid =>
    split
    · exact Or.inl rfl
    next hclosed =>
      split
      · exact Or.inl rfl
      next hport => exact Or.inr ⟨_, not_not.1 (not_or.1 hvalid).2, not_not.1 hclosed, hport, rfl⟩

theorem tcpListen_eq (backlog : Nat) (htcp : (t.ants i).proto = .tcp)
    (hclosed : (t.ants i).tcpState = .closed)
    (hport : (t.ants i).localPort ≠ 0) : ∃ n, (t.tcpListen i backlog).1 =
      t.set i { t.ants i with tcpState := .listen, backlog := n } := by
  rw [tcpListen, if_neg (by simp [valid, htcp]), if_neg (by simp [hclosed]), if_neg hport]
  exact ⟨_, rfl⟩

section
variable (h : Inv t)
include h

theorem Inv.listen {backlog : Nat} (hclear : t.Clear (.listen i backlog)) :
    Inv (t.tcpListen i backlog).1 := by
  rcases t.tcpListen_spec i backlog with hsame | ⟨n, htcp, hclosed, hport, heq⟩
  · rw [hsame]
    exact h
  rw [heq]
  refine h.set (fun _ _ => hport) fun j hne hclash => ?_
  obtain ⟨heqp, ⟨-, hj, hpeer | ⟨-, hl⟩⟩ | ⟨hu, -, -⟩⟩ := hclash
  · exact h.apart i j hne.symm ⟨heqp, Or.inl ⟨htcp, hj, Or.inl hpeer⟩⟩
  · exact hclear htcp hclosed hport j hne ⟨hj, heqp.symm, hl⟩
  · cases htcp.symm.trans hu

theorem Inv.sendto (i : Slot) (dst : Option Ip) (dstPort : Port) :
    Inv (t.sendto i dst dstPort).1 := by
  rw [Table.sendto]
  split
  · exact h
  extract_lets a ip port t'
  split
  · exact h
  split
  · exact h
  split <;> exact h.implicitBind i

theorem Inv.spawn {l : Slot} (hl : t.listenerFor seg = some l) (hconn : t.connectionFor seg = none)
    (iss : UInt32) : Inv (t.spawn l seg iss).1 := by
  obtain ⟨htcp, hport, hlisten⟩ := of_listenerFor hl
  rw [Table.spawn]
  split
  · exact h
  split
  · exact h
  next c hc =>
    have hne : seg.dstPort ≠ 0 := hport ▸ h.placed l htcp (Or.inr hlisten)
    have hchild : Inv (t.set c (child seg iss)) := by
      refine h.set (fun _ _ => hne) fun j _ hclash => ?_
      obtain ⟨heq, ⟨-, hj, ⟨-, -, hpeer⟩ | ⟨hl, -⟩⟩ | ⟨hu, -, -⟩⟩ := hclash
      · exact connectionFor_eq_none.1 hconn j ⟨hj, heq.symm, hpeer⟩
      · exact absurd hl (by simp [child])
      · exact absurd hu (by simp [child])
    have hqueued : Inv ((t.set c (child seg iss)).set l
        { (t.set c (child seg iss)).ants l with
          acceptQueue := ((t.set c (child seg iss)).ants l).acceptQueue ++ [c] }) :=
      hchild.fade ⟨rfl, rfl, rfl, rfl, rfl, id⟩
    exact hqueued.congr rfl

theorem Inv.arrive (x : Arrival) : Inv (t.arrive x) := by
  cases x with
  | tcp seg iss =>
    rw [Table.arrive, deliverTcp]
    split
    next i _ => exact h.put ((t.ants i).handle_steady i _ seg).fades
    next hconn =>
      split
      · split
        next l hl => exact h.spawn hl hconn iss
        · exact h
      · exact h
  | udp d =>
    rw [Table.arrive, deliverUdp]
    split
    · dsimp only
      split
      · exact h
      · exact h.fade ⟨rfl, rfl, rfl, rfl, rfl, id⟩
    · exact h
  | timer i now => exact h.put ((t.ants i).tcpCheckRetransmit_steady now).fades

section
variable (i : Slot)

theorem Inv.send (buf : List UInt8) (now : Nat) : Inv (t.tcpSend i buf now).1 := by
  rw [tcpSend]
  iterate 4
    split
    · exact h
  exact h.put ⟨rfl, rfl, rfl, rfl, rfl, id⟩

theorem Inv.recv (cap : Nat) : Inv (t.tcpTryRecv i cap).1 := by
  rw [tcpTryRecv]
  split
  · exact h
  · exact h.put ((t.ants i).take_steady cap).fades

theorem Inv.recvfrom (cap : Nat) : Inv (t.recvfrom i cap).1 := by
  rw [Table.recvfrom]
  split
  · exact h
  · exact h.fade ⟨rfl, rfl, rfl, rfl, rfl, id⟩

theorem Inv.accept : Inv (t.tcpTryAccept i).1 := by
  rw [tcpTryAccept]
  iterate 2
    split
    · exact h
  split
  · exact h.fade ⟨rfl, rfl, rfl, rfl, rfl, id⟩
  · exact h

theorem Inv.close : Inv (t.close i) := by
  rw [Table.close]
  split
  · exact h
  split
  · exact h.fade ⟨rfl, rfl, rfl, rfl, rfl, id⟩
  split
  next htcp =>
    have hrefs : Inv (t.set i { t.ants i with refs := 1 }) := h.fade ⟨rfl, rfl, rfl, rfl, rfl, id⟩
    refine Inv.congr (hrefs.put ⟨rfl, rfl, rfl, rfl, rfl, fun hl => ?_⟩) rfl
    split at hl <;> exact absurd hl TcpState.noConfusion
  · exact h.fresh rfl (by simp) fun _ => rfl

theorem Inv.closeDone : Inv (t.closeDone i) := by
  rw [Table.closeDone]
  split
  · exact Inv.congr (h.fresh rfl (by simp) fun _ => rfl) rfl
  · exact h

end

/-- **Every step.** -/
theorem Inv.step {e : Event} (hclear : t.Clear e) : Inv (t.step e) := by
  cases e with
  | socketUdp => exact h.socket .udp
  | socketTcp => exact h.socket .tcp
  | incRef i => exact h.incRef i
  | bind i port => exact h.bind hclear
  | connect i ip port iss now => exact h.connect hclear
  | listen i backlog => exact h.listen hclear
  | sendto i dst dstPort => exact h.sendto i dst dstPort
  | recvfrom i cap => exact h.recvfrom i cap
  | send i buf now => exact h.send i buf now
  | recv i cap => exact h.recv i cap
  | accept i => exact h.accept i
  | close i => exact h.close i
  | closeDone i => exact h.closeDone i
  | arrive x => exact h.arrive x

end

/-! ## Where the condition is not met -/

/-- A call that gives a TCP socket the ends of another makes the table ambiguous. -/
theorem Unambiguous.clear {e : Event} (h : (t.step e).Unambiguous) : t.Clear e := by
  cases e with
  | bind i port =>
    intro htcp p hoffers j hne hclash
    have heq := bind_eq (i := i) (by simp [valid, htcp]) hoffers
    refine unambiguous_iff.1 h i j hne.symm ?_
    rw [step, heq, set_ants, if_pos rfl, set_ants, if_neg hne]
    exact hclash
  | connect i ip port iss now =>
    intro htcp hclosed p hkeeps j hne hconn
    obtain ⟨hself, hothers⟩ := tcpConnect_eq ip port iss now htcp hclosed hkeeps
    rw [step, connect, if_neg (by simp [valid, htcp]), if_pos htcp] at h
    refine hne (h.connected j i p ip port hkeeps.ne_zero ?_ hself)
    rw [Connected, hothers j hne]
    exact hconn
  | listen i backlog =>
    intro htcp hclosed hport j hne hlistens
    obtain ⟨n, heq⟩ := tcpListen_eq backlog htcp hclosed hport
    rw [step, heq] at h
    refine hne (h.listening j i (t.ants i).localPort ?_ ?_)
    · rw [Listens, set_ants, if_neg hne]
      exact hlistens
    · rw [Listens, set_ants, if_pos rfl]
      exact ⟨htcp, rfl, rfl⟩
  | _ => trivial

theorem empty_inv : Inv {} :=
  ⟨fun _ _ _ hclash => by simp [Clash] at hclash, nofun⟩

end Table

/-- **Main theorem.**  In a run that starts with no sockets, what arrives is for at most one socket
in every state, and nothing is dropped that a socket could take, exactly if no bind, connect or
listen gives a TCP socket the ends of another one. -/
theorem demultiplexes (es : List Event) :
    (Always step Table.Unambiguous {} es ∧
        EachStep step (fun t e => ∀ x, e = .arrive x → t.DropsRightly x) {} es) ↔
      EachStep step Table.Clear {} es :=
  always_and_eachStep_iff (I := Inv) (fun _ h => unambiguous_iff.2 h.apart)
    (fun _ _ h _ x _ => (unambiguous_iff.2 h.apart).dropsRightly x)
    (fun _ _ h hclear => h.step hclear)
    (fun _ _ _ h _ => h.clear) empty_inv

/-- Two TCP sockets are bound to one port, and both listen. -/
def twoListeners : List Event :=
  [.socketTcp, .socketTcp, .bind 0 80, .bind 1 80, .listen 0 4, .listen 1 4]

theorem twoListeners_ambiguous : ¬ Always step Table.Unambiguous {} twoListeners := by
  intro h
  have hlistens : (Traces.run step {} twoListeners).Listens 0 80 ∧
      (Traces.run step {} twoListeners).Listens 1 80 := by
    refine ⟨⟨?_, ?_, ?_⟩, ⟨?_, ?_, ?_⟩⟩ <;> decide +kernel
  cases h.last.listening 0 1 80 hlistens.1 hlistens.2

end IndexOS.Antennas
