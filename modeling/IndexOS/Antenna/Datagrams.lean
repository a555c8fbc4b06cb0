import IndexOS.Antenna.Table
import IndexOS.Lib.Traces

/-!
# Datagrams keep their boundaries

A UDP socket keeps its datagrams in the same ring in which a TCP socket keeps its bytes: eight bytes
that say who has sent how much, and then the payload.  Nothing marks where a record begins, so
everything depends on reading and writing whole ones.  `Mail` adds to the sockets what their owners
count on: which datagrams have been accepted and are still to come.

* `Mail`, `Post`, `Mail.step` — the sockets, what is done to them, and what it does;
* `Mail.Framed` — the rings hold whole records, and nothing else;
* `Mail.Answers` — the oldest datagram is given out, one that comes is taken whole or not at all;
* `recvfrom_record` — one record is read, wherever in the ring it is;
* `keeps_boundaries` — the main theorem.
-/

set_option autoImplicit false

namespace IndexOS.Antennas

open List RingBuffer Table
open Function (update update_of_ne update_self)
open Traces (Always EachStep)

/-- The sockets, and for each the datagrams it has accepted and not given out, the oldest first. -/
structure Mail where
  table : Table
  waiting : Slot → List Datagram := fun _ => []

inductive Post where
  | deliver (d : Datagram)
  | receive (i : Slot) (cap : Nat)

/-- The source that `antenna_recvfrom` reads off the first six bytes of a record. -/
def sourceOf (hdr : List UInt8) : Ip × Port :=
  (⟨hdr.getD 0 0, hdr.getD 1 0, hdr.getD 2 0, hdr.getD 3 0⟩,
    UInt16.ofNat ((hdr.getD 4 0).toNat * 256 + (hdr.getD 5 0).toNat))

namespace Mail

/-- A datagram waits from when it is accepted until a call answers. -/
def step (m : Mail) : Post → Mail
  | .deliver d =>
    { table := (m.table.deliverUdp d).1
      waiting :=
        match m.table.udpFor d, (m.table.deliverUdp d).2 with
        | some i, .delivered => update m.waiting i (m.waiting i ++ [d])
        | _, _ => m.waiting }
  | .receive i cap =>
    { table := (m.table.recvfrom i cap).1
      waiting := if (m.table.recvfrom i cap).2.isSome then update m.waiting i
        (m.waiting i).tail else m.waiting }

/-- The ring of every UDP socket is made up of the records of what waits. -/
def Framed (m : Mail) : Prop :=
  ∀ i, (m.table.ants i).proto = .udp → (m.table.ants i).rx.contents = (m.waiting i).flatMap record

/-- A call gives the oldest datagram that waits, its source and as much of it as fits.  A datagram
that comes is put into one ring as a whole, or changes nothing. -/
def Answers (m : Mail) : Post → Prop
  | .receive i cap => (m.table.recvfrom i cap).2.map (Prod.map sourceOf id) =
      (m.waiting i).head?.map fun d => ((d.srcIp, d.srcPort), d.payload.take cap)
  | .deliver d => (m.table.deliverUdp d).1 = m.table ∨
      ∃ i rx, m.table.udpFor d = some i ∧ (m.table.deliverUdp d).1 = m.table.set i
        { m.table.ants i with rx := rx } ∧ rx.contents = (m.table.ants i).rx.contents ++ record d

/-- The call is for a UDP socket. -/
def OnUdp (m : Mail) : Post → Prop
  | .receive i _ => (m.table.ants i).proto = .udp
  | .deliver _ => True

instance (m : Mail) : DecidablePred m.OnUdp
  | .receive i _ => inferInstanceAs (Decidable ((m.table.ants i).proto = .udp))
  | .deliver _ => isTrue trivial

end Mail

/-! ## One record -/

theorem length_record (d : Datagram) : (record d).length = 8 + d.payload.length := by
  rw [record, length_append]
  rfl

/-- Two bytes are a number below `2 ^ 16`. -/
theorem bytes_of_lt {n : Nat} (h : n < 2 ^ 16) :
    (UInt8.ofNat (n / 256)).toNat * 256 + (UInt8.ofNat n).toNat = n := by
  rw [UInt8.toNat_ofNat', UInt8.toNat_ofNat']
  omega

theorem sourceOf_record (d : Datagram) : sourceOf ((record d).take 6) = (d.srcIp, d.srcPort) := by
  have hport := bytes_of_lt d.srcPort.toNat_lt
  rw [sourceOf, record]
  simp only [cons_append, take_succ_cons, getD_cons_zero, getD_cons_succ]
  rw [hport, UInt16.ofNat_toNat]

/-- The record at the head of a ring is read, and the next one is at the head. -/
theorem recvfrom_record {t : Table} {i : Slot} {d : Datagram} {rest : List UInt8} (cap : Nat)
    (hudp : (t.ants i).proto = .udp) (htidy : (t.ants i).rx.Tidy)
    (hcontents : (t.ants i).rx.contents = record d ++ rest) :
    ∃ rx, t.recvfrom i cap =
        (t.set i { t.ants i with rx := rx }, some ((record d).take 6, d.payload.take cap)) ∧
      rx.Tidy ∧ rx.contents = rest := by
  have hlength := congrArg length hcontents
  rw [length_contents, length_append, length_record] at hlength
  have hle := htidy.avail_le
  simp only [kAntennaRxBytes] at hle
  -- the eight bytes in front
  obtain ⟨htidy', hlen, hhead⟩ := takeN_spec 8 htidy (by omega)
  rw [hcontents, record, append_assoc] at hhead
  obtain ⟨hhdr, hbody⟩ := append_inj hhead hlen.symm
  have hplen : (((t.ants i).rx.takeN 8).1.getD 6 0).toNat * 256 +
      (((t.ants i).rx.takeN 8).1.getD 7 0).toNat = d.payload.length := by
    rw [← hhdr]
    exact bytes_of_lt (by omega)
  -- the payload
  have havail := congrArg length hbody
  rw [length_contents, length_append] at havail
  obtain ⟨htidy'', hlen', hdata⟩ := takeN_spec d.payload.length htidy' (by omega)
  obtain ⟨hpayload, hrest⟩ := append_inj (hbody.trans hdata) hlen'.symm
  refine ⟨_, ?_, htidy'', hrest.symm⟩
  have hsome : (t.ants i).rx.avail ≠ 0 := by omega
  rw [recvfrom, if_neg (by simp [valid, hudp, hsome])]
  dsimp only
  rw [hplen, ← hpayload, ← hhdr]
  rfl

/-! ## The invariant -/

namespace Mail

variable {m : Mail}

/-- The rings are in order and made up of records. -/
def Inv (m : Mail) : Prop :=
  ∀ i, (m.table.ants i).proto = .udp →
    (m.table.ants i).rx.Tidy ∧ (m.table.ants i).rx.contents = (m.waiting i).flatMap record

variable (h : Inv m)
include h

theorem Inv.framed : m.Framed := fun i hi => (h i hi).2

/-- The ring of one socket changes, and what waits there with it. -/
theorem Inv.set {i : Slot} {rx : RingBuffer UInt8 kAntennaRxBytes} {l : List Datagram}
    (htidy : rx.Tidy) (hcontents : rx.contents = l.flatMap Table.record) :
    Inv { table := m.table.set i { m.table.ants i with rx := rx }, waiting :=
      update m.waiting i l } := by
  intro j hj
  rcases eq_or_ne j i with rfl | hne
  · simp only [Table.set, update_self]
    exact ⟨htidy, hcontents⟩
  · simp only [Table.set, update_of_ne hne] at hj ⊢
    exact h j hj

theorem Inv.deliver (d : Datagram) : Inv (m.step (.deliver d)) ∧ m.Answers (.deliver d) := by
  rw [step, Answers, deliverUdp]
  cases hfor : m.table.udpFor d with
  | none => exact ⟨h, Or.inl rfl⟩
  | some i =>
    dsimp only
    split
    · exact ⟨h, Or.inl rfl⟩
    next hroom =>
      have hudp : (m.table.ants i).proto = .udp := by
        rw [udpFor, Option.or_eq_some_iff] at hfor
        rcases hfor with hfor | ⟨-, hfor⟩ <;> have hfound := find?_some hfor <;> simp_all
      obtain ⟨htidy, hcontents⟩ := h i hudp
      have hle := htidy.avail_le
      obtain ⟨htidy', hcontents'⟩ := putAll_spec (record d) htidy (by rw [length_record]; omega)
      refine ⟨h.set htidy' ?_, Or.inr ⟨i, _, rfl, rfl, hcontents'⟩⟩
      rw [hcontents', hcontents, flatMap_append, flatMap_singleton]

theorem Inv.receive {i : Slot} (hudp : (m.table.ants i).proto = .udp) (cap : Nat) :
    Inv (m.step (.receive i cap)) ∧ m.Answers (.receive i cap) := by
  obtain ⟨htidy, hcontents⟩ := h i hudp
  cases hwaiting : m.waiting i with
  | nil =>
    rw [hwaiting, flatMap_nil] at hcontents
    have havail := congrArg length hcontents
    rw [length_contents, length_nil] at havail
    have hnone : m.table.recvfrom i cap =
      (m.table, none) := by rw [recvfrom, if_pos (Or.inr havail)]
    rw [step, Answers, hnone, hwaiting]
    exact ⟨h, rfl⟩
  | cons d rest =>
    rw [hwaiting, flatMap_cons] at hcontents
    obtain ⟨rx, hrecv, htidy', hrest⟩ := recvfrom_record cap hudp htidy hcontents
    rw [step, Answers, hrecv, hwaiting]
    refine ⟨h.set htidy' hrest, ?_⟩
    simp only [Option.map_some, Prod.map_apply, sourceOf_record, id, head?_cons]

/-- **Every call and every datagram.** -/
theorem Inv.step {e : Post} (hudp : m.OnUdp e) : Inv (m.step e) ∧ m.Answers e := by
  cases e with
  | deliver d => exact h.deliver d
  | receive i cap => exact h.receive hudp cap

end Mail

/-- **Main theorem.**  Start with any sockets whose rings are empty, wherever their heads are. 
Whatever datagrams come and whatever is received from UDP sockets, the rings are made up of whole
records, each call gives the oldest datagram that was accepted for its socket, and each datagram is
accepted whole or not at all. -/
theorem keeps_boundaries (t : Table)
    (hempty : ∀ i, (t.ants i).proto = .udp → (t.ants i).rx.Tidy ∧ (t.ants i).rx.avail = 0)
    (es : List Post)
    (hudp : EachStep Mail.step Mail.OnUdp { table := t } es) :
    Always Mail.step Mail.Framed { table := t } es ∧ EachStep Mail.step Mail.Answers { table :=
      t } es := by
  have hinv : Mail.Inv { table := t } := fun i hi =>
    ⟨(hempty i hi).1, contents_eq_nil (hempty i hi).2⟩
  have hstep : ∀ m e, Mail.Inv m → m.OnUdp e → Mail.Inv (m.step e) := fun _ _ h hu => (h.step hu).1
  exact ⟨Always.of_invariant (fun _ h => h.framed) hstep hinv hudp,
    EachStep.of_invariant (fun _ _ h hu => (h.step hu).2) hstep hinv hudp⟩

/-- One UDP socket at port 7, whose ring is about to wrap around. -/
def echoTable : Table :=
  ({} : Table).set 0 { proto := .udp, refs := 1, localPort := 7, rx :=
    { buf := fun _ => 0, head := 65530, tail := 65530 } }

/-- Two datagrams, of which the first is cut short. -/
def twoDatagrams : List Post :=
  [.deliver ⟨⟨10, 0, 2, 2⟩, 5000, 7, [1, 2, 3]⟩, .deliver ⟨⟨10, 0, 2, 3⟩, 5001, 7, []⟩,
    .receive 0 2, .receive 0 9]

theorem twoDatagrams_framed :
    Always Mail.step Mail.Framed { table := echoTable } twoDatagrams ∧
      EachStep Mail.step Mail.Answers { table := echoTable } twoDatagrams := by
  refine keeps_boundaries echoTable (fun i hi => ?_) twoDatagrams ?_
  · rcases eq_or_ne i 0 with rfl | hne
    · exact ⟨⟨by decide, by decide, by decide⟩, rfl⟩
    · simp [echoTable, Table.set, hne] at hi
  · refine ⟨?_, ?_, ?_, ?_, trivial⟩ <;> decide +kernel

end IndexOS.Antennas
