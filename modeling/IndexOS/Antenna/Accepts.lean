import IndexOS.Antenna.AcceptQueue

/-!
# What stays in a queue for ever

A child that has been reset, or whose peer is gone before the third segment of the handshake, is
never established, and only an established child leaves a queue: `World.Stuck` is kept by every step
but the closing of the listener.  A child that has had its peer's FIN is not established any more
either.  So no run in which one of these things happens, or in which a listener is closed while it
has a queue, has the property.

* `World.Stuck.run` — a dead child stays where it is;
* `World.Inv.patient` — a step that is not patient breaks the property;
* `accepts_iff` — the main theorem.
-/

set_option autoImplicit false

namespace IndexOS.Antennas

open List Table
open Function (update update_of_ne update_self)
open Traces (Always EachStep always_and_eachStep_iff)

namespace World

variable {w : World} {i c l : Slot} {k : Child} {a : Antenna}

/-! ## A dead child stays in the queue -/

/-- The child `c` is of no use and nobody can take it out of the queue of `l`. -/
structure Stuck (w : World) (l c : Slot) : Prop where
  place : c ∈ w.queue l
  busy : (w.table.ants l).proto ≠ .free
  tcp : (w.table.ants c).proto = .tcp
  nobody : w.ledger.owned c = 0
  out : c ∉ w.table.closing
  listens : l ∉ w.table.closing
  dead : (w.table.ants c).tcpState = .reset ∨ ((w.table.ants c).tcpState = .synRcvd ∧
    ((w.table.ants c).remoteIp, (w.table.ants c).remotePort) ∈ w.ledger.gone)

namespace Stuck

variable {t' : Table} {g' : Ledger}

section
variable (h : Stuck w l c)
include h

/-- Something is done to the socket `i`. -/
theorem frame (hants : ∀ j, j ≠ i → t'.ants j = w.table.ants j) (hc : c ≠ i)
    (hlst : l = i → (t'.ants i).proto ≠ .free ∧ c ∈ (t'.ants i).acceptQueue) (hout : c ∉ t'.closing)
    (hlout : l ∉ t'.closing) (hown : g'.owned c = 0) (hgone : g'.gone = w.ledger.gone) :
    Stuck ⟨t', g'⟩ l c := by
  have hself := hants c hc
  refine ⟨?_, ?_, by rw [hself]; exact h.tcp, hown, hout, hlout, by rw [hself, hgone]; exact h.dead⟩
  · by_cases hl : l = i
    · rw [hl]
      exact (hlst hl).2
    · rw [queue, hants l hl]
      exact h.place
  · by_cases hl : l = i
    · rw [hl]
      exact (hlst hl).1
    · rw [hants l hl]
      exact h.busy

/-- Something is done to a socket that keeps its queue. -/
theorem touch (hants : t'.ants = update w.table.ants i a) (hclosing : t'.closing = w.table.closing)
    (hc : c ≠ i) (hproto : a.proto = (w.table.ants i).proto) (hqueue : a.acceptQueue = w.queue i)
    (hown : g'.owned c = 0) (hgone : g'.gone = w.ledger.gone) : Stuck ⟨t', g'⟩ l c := by
  refine h.frame (fun j hj => by rw [hants, update_of_ne hj]) hc (fun hl => ?_)
    (hclosing ▸ h.out) (hclosing ▸ h.listens) hown hgone
  rw [hants, update_self, hproto, hqueue, ← hl]
  exact ⟨h.busy, h.place⟩

/-- Something is done to the child itself. -/
theorem self (hants : t'.ants = update w.table.ants c a) (hclosing : t'.closing = w.table.closing)
    (hsteady : (w.table.ants c).Steady a)
    (hdead : a.tcpState = .reset ∨ a.tcpState = (w.table.ants c).tcpState) (hown : g'.owned c = 0)
    (hgone : g'.gone = w.ledger.gone) : Stuck ⟨t', g'⟩ l c := by
  have hself : t'.ants c = a := by rw [hants, update_self]
  have hqueue : (t'.ants l).acceptQueue = w.queue l ∧
    (t'.ants l).proto = (w.table.ants l).proto := by
    by_cases hl : l = c
    · rw [hl, hself]
      exact ⟨hsteady.acceptQueue, hsteady.proto⟩
    · rw [hants, update_of_ne hl]
      exact ⟨rfl, rfl⟩
  refine ⟨by rw [queue, hqueue.1]; exact h.place, by rw [hqueue.2]; exact h.busy,
    by rw [hself, hsteady.proto]; exact h.tcp, hown, hclosing ▸ h.out, hclosing ▸ h.listens, ?_⟩
  rw [hself, hgone, hsteady.remoteIp, hsteady.remotePort]
  rcases hdead with hdead | hdead
  · exact Or.inl hdead
  · rw [hdead]
    exact h.dead

theorem ne_of_holds (hi : w.holds i = true) : c ≠ i := by
  rintro rfl
  exact absurd h.nobody (by have := (holds_iff.1 hi).1; omega)

theorem ne_of_free (hfree : (w.table.ants i).proto = .free) : c ≠ i ∧ l ≠ i := by
  constructor
  · rintro rfl
    cases h.tcp.symm.trans hfree
  · rintro rfl
    exact h.busy hfree

theorem socket (proto : Proto) :
    Stuck ⟨(w.table.socket proto).1, w.ledger.acquire (w.table.socket proto).2⟩ l c := by
  rw [Table.socket]
  cases hfree : w.table.allocate with
  | none => exact h
  | some i =>
    obtain ⟨hc, hl⟩ := h.ne_of_free (of_allocate hfree)
    refine h.frame (fun j hj => update_of_ne hj _ _) hc (fun heq => absurd heq hl) h.out
      h.listens ?_ rfl
    exact (update_of_ne hc _ _).trans h.nobody

theorem incRef (hi : w.holds i = true) (n : Nat) :
    Stuck ⟨w.table.incRef i, { w.ledger with owned := update w.ledger.owned i n }⟩ l c := by
  have hc := h.ne_of_holds hi
  have hown : update w.ledger.owned i n c = 0 := (update_of_ne hc _ _).trans h.nobody
  rw [Table.incRef]
  split
  · exact h.touch rfl rfl hc rfl rfl hown rfl
  · exact { h with nobody := hown }

theorem plain (hcalls : w.table.CallsOnly i t') (hi : w.holds i = true) :
    Stuck ⟨t', w.ledger⟩ l c := by
  obtain ⟨hclosing, a, hcalled, hants⟩ := hcalls
  exact h.touch hants hclosing (h.ne_of_holds hi) hcalled.proto hcalled.queue h.nobody rfl

theorem accept (hi : w.holds i = true) :
    Stuck ⟨(w.table.tcpTryAccept i).1, w.ledger.note w.table (.accept i) (w.table.tcpTryAccept i).1⟩
      l c := by
  rw [Ledger.note, tcpTryAccept]
  split
  · exact h
  split
  · exact h
  cases hd : w.table.acceptable i with
  | none => exact h
  | some d =>
    have hest : (w.table.ants d).tcpState = .established := by
      have hfound := find?_some hd
      simpa using hfound
    have hcd : c ≠ d := by
      rintro rfl
      have hdead := h.dead
      rw [hest] at hdead
      simp at hdead
    have hown : (w.ledger.accepted i d).owned c = 0 := (update_of_ne hcd _ _).trans h.nobody
    refine h.frame (fun j hj => update_of_ne hj _ _) (h.ne_of_holds hi) (fun hl => ?_) h.out
      h.listens hown rfl
    rw [set_ants, if_pos rfl, ← hl]
    exact ⟨h.busy, (mem_erase_of_ne hcd).2 h.place⟩

end

/-- Closing touches nothing else. -/
theorem close_frame (t : Table) (i : Slot) :
    (∀ j, j ≠ i → (t.close i).ants j = t.ants j) ∧
      ∀ j, j ≠ i → (j ∈ (t.close i).closing ↔ j ∈ t.closing) := by
  rw [close]
  split
  · exact ⟨fun _ _ => rfl, fun _ _ => Iff.rfl⟩
  split
  · exact ⟨fun j hj => update_of_ne hj _ _, fun _ _ => Iff.rfl⟩
  split
  · refine ⟨fun j hj => ?_, fun j hj =>
      ⟨fun hin => (mem_cons.1 hin).resolve_left hj, mem_cons_of_mem _⟩⟩
    exact (update_of_ne hj _ _).trans (update_of_ne hj _ _)
  · exact ⟨fun j hj => update_of_ne hj _ _, fun _ _ => Iff.rfl⟩

variable (h : Stuck w l c)
include h

theorem close (hi : w.holds i = true) (hl : l ≠ i) :
    Stuck ⟨w.table.close i, w.ledger.note w.table (.close i) (w.table.close i)⟩ l c := by
  have hc := h.ne_of_holds hi
  obtain ⟨hants, hclosing⟩ := close_frame w.table i
  have hother : ∀ n, update w.ledger.owned i n c = 0 := fun n =>
    (update_of_ne hc _ _).trans h.nobody
  refine h.frame hants hc (fun heq => absurd heq hl) (mt (hclosing c hc).1 h.out)
    (mt (hclosing l hl).1 h.listens) ?_ ?_ <;> rw [Ledger.note]
  · split
    · exact h.nobody
    split <;> exact hother _
  · split
    · rfl
    split <;> rfl

theorem closeDone (i : Slot) :
    Stuck ⟨w.table.closeDone i, w.ledger.note w.table (.closeDone i) (w.table.closeDone i)⟩
      l c := by
  rw [Ledger.note, Table.closeDone]
  by_cases hin : i ∈ w.table.closing
  · rw [if_pos hin, if_pos hin]
    have hc : c ≠ i := fun heq => h.out (heq ▸ hin)
    have hl : l ≠ i := fun heq => h.listens (heq ▸ hin)
    refine h.frame (fun j hj => update_of_ne hj _ _) hc (fun heq => absurd heq hl)
      (mt mem_of_mem_erase h.out) (mt mem_of_mem_erase h.listens) ?_ rfl
    exact (update_of_ne hc _ _).trans h.nobody
  · rw [if_neg hin, if_neg hin]
    exact h

theorem arriveTcp {seg : Segment} {iss : UInt32} (hmay : (seg.srcIp, seg.srcPort) ∉ w.ledger.gone)
    {g' : Ledger} (hown : g'.owned = w.ledger.owned) (hgone : g'.gone = w.ledger.gone) :
    Stuck ⟨(w.table.deliverTcp seg iss).1, g'⟩ l c := by
  have hnobody : g'.owned c = 0 := by rw [hown]; exact h.nobody
  have hsame : Stuck ⟨w.table, g'⟩ l c :=
    ⟨h.place, h.busy, h.tcp, hnobody, h.out, h.listens, by rw [hgone]; exact h.dead⟩
  rw [deliverTcp]
  cases hconn : w.table.connectionFor seg with
  | some i =>
    have hsteady := (w.table.ants i).handle_steady i (w.table.accepting i) seg
    by_cases hic : i = c
    · rw [hic] at hconn hsteady ⊢
      refine h.self (put_ants ..) rfl hsteady ?_ hnobody hgone
      obtain ⟨-, hip, hport⟩ := isPeer_iff.1 (of_connectionFor hconn).2.2
      rcases h.dead with hreset | ⟨-, hin⟩
      · left
        rw [Antenna.handle]
        split
        · rfl
        · rw [hreset]
          exact hreset
      · rw [hip, hport] at hin
        exact absurd hin hmay
    · exact h.touch (put_ants ..) rfl (Ne.symm hic) hsteady.proto hsteady.acceptQueue hnobody hgone
  | none =>
    dsimp only
    split
    · cases hlst : w.table.listenerFor seg with
      | none => exact hsame
      | some m =>
        dsimp only
        rw [spawn]
        split
        · exact hsame
        cases hfree : w.table.allocate with
        | none => exact hsame
        | some d =>
          obtain ⟨hcd, hld⟩ := h.ne_of_free (of_allocate hfree)
          have hcm : c ≠ m := by
            rintro rfl
            have hdead := h.dead
            rw [(of_listenerFor hlst).2.2] at hdead
            simp at hdead
          have hchild : Stuck ⟨w.table.set d (child seg iss), g'⟩ l c :=
            h.frame (fun j hj => update_of_ne hj _ _) hcd (fun heq => absurd heq hld) h.out
              h.listens hnobody hgone
          refine hchild.frame (fun j hj => update_of_ne hj _ _) hcm (fun hl => ?_) h.out
            h.listens hnobody rfl
          have hplace := hchild.place
          have hbusy := hchild.busy
          rw [hl] at hplace hbusy
          dsimp only [emit]
          rw [set_ants, if_pos rfl]
          exact ⟨hbusy, mem_append_left _ hplace⟩
    · exact hsame

theorem arriveUdp (d : Datagram) : Stuck ⟨(w.table.deliverUdp d).1, w.ledger⟩ l c := by
  rw [deliverUdp]
  cases hfor : w.table.udpFor d with
  | none => exact h
  | some i =>
    dsimp only
    split
    · exact h
    · refine h.touch rfl rfl ?_ rfl rfl h.nobody rfl
      rintro rfl
      cases h.tcp.symm.trans (of_udpFor hfor).1.1

theorem timer (i : Slot) (now : Nat) :
    Stuck ⟨w.table.put i ((w.table.ants i).tcpCheckRetransmit now), w.ledger⟩ l c := by
  have hsteady := (w.table.ants i).tcpCheckRetransmit_steady now
  by_cases hic : i = c
  · rw [hic] at hsteady ⊢
    refine h.self (put_ants ..) rfl hsteady ?_ h.nobody rfl
    rw [Antenna.tcpCheckRetransmit]
    split
    · exact Or.inr rfl
    split
    · exact Or.inl rfl
    · exact Or.inr rfl
  · exact h.touch (put_ants ..) rfl (Ne.symm hic) hsteady.proto hsteady.acceptQueue h.nobody rfl

theorem step {e : Happening} (hne : e ≠ .event (.close l)) : Stuck (w.step e) l c := by
  cases e with
  | gone ip port =>
    exact { h with dead := h.dead.imp_right fun hx => ⟨hx.1, mem_cons_of_mem _ hx.2⟩ }
  | event e =>
    rw [World.step]
    by_cases hmay : w.may e = true
    · rw [if_pos hmay]
      cases e with
      | socketUdp => exact h.socket .udp
      | socketTcp => exact h.socket .tcp
      | incRef i =>
        have hboth : w.holds i = true ∧ w.ledger.owned
          i < kMaxDescriptors := by simpa [may] using hmay
        exact h.incRef hboth.1 _
      | bind i port => exact h.plain (w.table.bind_callsOnly i port) hmay
      | connect i ip port iss now =>
        exact h.plain (w.table.connect_callsOnly i ip port iss now) hmay
      | listen i backlog => exact h.plain (w.table.tcpListen_callsOnly i backlog) hmay
      | sendto i dst port => exact h.plain (w.table.sendto_callsOnly i dst port) hmay
      | recvfrom i cap => exact h.plain (w.table.recvfrom_callsOnly i cap) hmay
      | send i buf now => exact h.plain (w.table.tcpSend_callsOnly i buf now) hmay
      | recv i cap => exact h.plain (w.table.tcpTryRecv_callsOnly i cap) hmay
      | accept i => exact h.accept hmay
      | close i => exact h.close hmay (by rintro rfl; exact hne rfl)
      | closeDone i => exact h.closeDone i
      | arrive x =>
        cases x with
        | tcp seg iss => exact h.arriveTcp (by simpa [may] using hmay) rfl rfl
        | udp d => exact h.arriveUdp d
        | timer i now => exact h.timer i now
    · rw [if_neg hmay]
      exact h

theorem run {es : List Happening} (hes : ∀ e ∈ es, e ≠ .event (.close l)) :
    Stuck (Traces.run World.step w es) l c := by
  induction es generalizing w with
  | nil => exact h
  | cons e rest ih =>
    exact ih (h.step (hes e mem_cons_self)) fun e' he' => hes e' (mem_cons_of_mem _ he')

theorem not_releasable : ¬ w.Releasable l c := by
  rintro ⟨es, hes, hout⟩
  exact hout (h.run hes).place

end Stuck

/-! ## Only patient steps keep the property -/

theorem acceptTimes_tcpState (l : Slot) (n : Nat) (t : Table) (d : Slot) :
    ((acceptTimes l n t).ants d).tcpState = (t.ants d).tcpState := by
  induction n generalizing t with
  | zero => rfl
  | succ n ih =>
    rw [acceptTimes, ih, tcpTryAccept]
    split
    · rfl
    split
    · rfl
    split
    · rw [set_ants]
      split
      next heq => rw [heq]
      · rfl
    · rfl

/-- Only who is established is served. -/
theorem Sound.established (h : Sound w) (hc : w.ledger.child c = some k)
    (hdone : k.completed = true)
    (hreset : k.reset = false) : (w.table.ants c).tcpState = .established := by
  obtain ⟨n, -, hfound⟩ := h.served c k hc hdone hreset
  have hest := find?_some hfound
  rw [decide_eq_true_iff, acceptTimes_tcpState] at hest
  exact hest

/-- The child that a segment is for, in the world after it. -/
theorem after_segment {seg : Segment} {iss : UInt32}
    (hmay : w.may (.arrive (.tcp seg iss)) = true) (hc : w.ledger.child c = some k)
    (hconn : w.table.connectionFor seg = some c) :
    ∃ t' g', w.step (.event (.arrive (.tcp seg iss))) = ⟨t', g'⟩ ∧
      t'.ants = update w.table.ants c ((w.table.ants c).handle c (w.table.accepting c) seg).1 ∧
      t'.closing = w.table.closing ∧ g'.owned = w.ledger.owned ∧
      g'.child c = some (k.hear (w.table.ants c) seg) := by
  have htable : w.table.step (.arrive (.tcp seg iss)) =
      w.table.put c ((w.table.ants c).handle c (w.table.accepting c) seg) := by
    rw [Table.step, Table.arrive, Table.deliverTcp, hconn]
  rw [step, if_pos hmay, htable]
  refine ⟨_, _, rfl, rfl, rfl, rfl, ?_⟩
  rw [Ledger.note, heard_of_connection (fun d => ?_) hconn, update_self, hc, Option.map_some]
  rw [put_ants]
  by_cases hd : d = c
  · rw [hd, update_self]
    exact ((w.table.ants c).handle_steady c _ seg).proto
  · rw [update_of_ne hd]

variable (h : Inv w)
include h

theorem Inv.patient_segment {seg : Segment} {iss : UInt32}
    (hsound : Sound (w.step (.event (.arrive (.tcp seg iss))))) :
    w.Patient (.event (.arrive (.tcp seg iss))) := by
  intro hmay l c hin hconn
  obtain ⟨k, hk, hkl⟩ := (h.queued l c).1 hin
  obtain ⟨hw, hnobody, hcout⟩ := h.child hk
  obtain ⟨t', g', hstep, hants, hclosing, howned, hchild⟩ := after_segment hmay hk hconn
  rw [hstep] at hsound
  obtain ⟨hownl, htcp, -⟩ := h.listens (ne_nil_of_mem hin)
  have hcl : l ≠ c := (h.ne_of_owned hownl hk).symm
  have hself : t'.ants c
    = ((w.table.ants c).handle c (w.table.accepting c) seg).1 := by rw [hants, update_self]
  have hlst : t'.ants l = w.table.ants l := by rw [hants, update_of_ne hcl]
  have hrst : seg.flags.rst = false := by
    by_contra hyes
    rw [Bool.not_eq_false] at hyes
    rw [Antenna.handle_of_rst _ _ _ hyes] at hself
    have hplace : c ∈ queue ⟨t', g'⟩ l := by
      rw [queue, hlst]
      exact hin
    have hstuck : Stuck ⟨t', g'⟩ l c := by
      refine ⟨hplace, by rw [hlst, htcp]; decide, by rw [hself]; exact hw.proto,
        by rw [howned]; exact hnobody, by rw [hclosing]; exact hcout,
        by rw [hclosing]; exact h.not_closing (ne_nil_of_mem hin), by rw [hself]; exact Or.inl rfl⟩
    refine hstuck.not_releasable (hsound.released l c hplace _ hchild (Or.inl ?_))
    rw [Child.hear, if_pos hyes]
  refine ⟨hrst, fun hest htakes => ?_⟩
  have hdone : k.completed = true := by
    have hstate := hw.state
    rw [hest] at hstate
    by_contra hno
    rw [if_neg hno] at hstate
    cases hstate
  have hhear : k.hear (w.table.ants c) seg = k := by
    rw [Child.hear, if_neg (by simp [hrst]),
      if_neg fun hx => absurd (hest.symm.trans hx.1) (by decide)]
  have hstill := hsound.established hchild (by rw [hhear]; exact hdone)
    (by rw [hhear]; exact hw.notReset)
  rw [hself, (Antenna.handle_of_established _ _ hest hw.ring hrst).1, if_pos htakes] at hstill
  cases hstill

theorem Inv.patient_gone {ip : Ip} {port : Port} (hsound : Sound (w.step (.gone ip port))) :
    w.Patient (.gone ip port) := by
  intro l c hin hstate
  obtain ⟨k, hk, hkl⟩ := (h.queued l c).1 hin
  obtain ⟨hw, hnobody, hcout⟩ := h.child hk
  obtain ⟨hownl, htcp, -⟩ := h.listens (ne_nil_of_mem hin)
  by_contra hpeer
  rw [Bool.not_eq_false] at hpeer
  obtain ⟨-, hip, hport⟩ := isPeer_iff.1 hpeer
  have hgone : ((w.table.ants c).remoteIp, (w.table.ants c).remotePort) ∈
    (ip, port) :: w.ledger.gone := by
    rw [hip, hport]
    exact mem_cons_self
  have hno : k.completed = false := by
    have hstate' := hw.state
    rw [hstate] at hstate'
    by_contra hyes
    rw [if_pos (Bool.not_eq_false _ ▸ hyes)] at hstate'
    cases hstate'
  have hstuck : Stuck (w.step (.gone ip port)) l c := by
    exact ⟨hin, by rw [World.step, htcp]; decide, hw.proto, hnobody, hcout,
      h.not_closing (ne_nil_of_mem hin), Or.inr ⟨hstate, hgone⟩⟩
  exact hstuck.not_releasable (hsound.released l c hin k hk (Or.inr ⟨hno, hgone⟩))

/-- The children of a listener that is closed are nobody's. -/
theorem Inv.patient_close (hsound : Sound (w.step (.event (.close l)))) :
    w.Patient (.event (.close l)) := by
  intro hmay hlast
  by_contra hne
  obtain ⟨c, hin⟩ := exists_mem_of_ne_nil _ hne
  obtain ⟨k, hk, hkl⟩ := (h.queued l c).1 hin
  obtain ⟨hw, hnobody, hcout⟩ := h.child hk
  obtain ⟨hownl, htcp, hlisten⟩ := h.listens hne
  have hcl : c ≠ l := h.ne_of_owned hownl hk
  have hclose : w.table.step (.close l) = w.table.set l {} := by
    rw [Table.step, Table.close, hlast]
    rw [if_neg (by simp [valid, htcp]), if_neg (by decide)]
    rw [hlisten]
    simp
  have hstep : w.step (.event (.close l)) = ⟨w.table.set l {}, w.ledger.release l⟩ := by
    rw [World.step, if_pos hmay, hclose, Ledger.note, Table.set_closing, if_neg (h.not_closing hne),
      if_pos]
    rw [set_ants, if_pos rfl]
  have hcount := hsound.counted
  rw [hstep] at hcount
  have hother : ∀ j, j ≠ l → (w.table.set l {}).ants j = w.table.ants j :=
    fun j hj => update_of_ne hj _ _
  have hself : (w.table.set l {}).ants l = {} := update_self ..
  have hqueue : ∀ m d, d ∈ queue ⟨w.table.set l {}, w.ledger.release l⟩ m → m ≠ l ∧
    d ∈ w.queue m := by
    intro m d hd
    rw [queue] at hd
    by_cases hm : m = l
    · rw [hm, hself] at hd
      cases hd
    · rw [hother m hm] at hd
      exact ⟨hm, hd⟩
  have hown : ∀ j, 0 < (w.ledger.release l).owned j → j ≠ l ∧ 0 < w.ledger.owned j := by
    intro j hj
    by_cases hjl : j = l
    · have hzero : (w.ledger.release l).owned l = 0 := update_self ..
      rw [hjl, hzero] at hj
      exact absurd hj (Nat.lt_irrefl 0)
    · have hsame : (w.ledger.release l).owned j = w.ledger.owned j := update_of_ne hjl _ _
      exact ⟨hjl, hsame ▸ hj⟩
  -- those with descriptors and those in a queue are not all: there is also the child
  rw [← Finset.card_union_of_disjoint, ← Finset.filter_or] at hcount
  · refine absurd hcount (ne_of_gt (Finset.card_lt_card ?_))
    refine Finset.ssubset_iff_of_subset (fun j hj => ?_) |>.2 ⟨c, ?_, fun hc => ?_⟩
    · rw [Finset.mem_filter] at hj ⊢
      refine ⟨hj.1, ?_⟩
      rcases hj.2 with hj | ⟨m, hm⟩
      · obtain ⟨hjl, hj⟩ := hown j hj
        rw [hother j hjl]
        exact (h.mine hj).1.busy
      · obtain ⟨-, hm⟩ := hqueue m j hm
        obtain ⟨k', hk', -⟩ := (h.queued m j).1 hm
        rw [hother j (h.ne_of_owned hownl hk')]
        exact fun hfree => h.not_queued hfree m hm
    · rw [Finset.mem_filter, hother c hcl, hw.proto]
      exact ⟨Finset.mem_univ c, by decide⟩
    · rcases (Finset.mem_filter.1 hc).2 with hc | ⟨m, hm⟩
      · exact absurd hnobody (by have := (hown c hc).2; omega)
      · obtain ⟨hml, hm⟩ := hqueue m c hm
        obtain ⟨k', hk', hkm⟩ := (h.queued m c).1 hm
        obtain rfl := Option.some.inj (hk.symm.trans hk')
        exact hml (hkm.symm.trans hkl)
  · refine Finset.disjoint_filter.2 fun j _ hj => ?_
    rintro ⟨m, hm⟩
    obtain ⟨k', hk', -⟩ := (h.queued m j).1 (hqueue m j hm).2
    exact h.ne_of_owned (hown j hj).2 hk' rfl

theorem Inv.patient (e : Happening) (hsound : Sound (w.step e)) : w.Patient e := by
  cases e with
  | gone ip port => exact h.patient_gone hsound
  | event e =>
    cases e with
    | close l => exact h.patient_close hsound
    | arrive x =>
      cases x with
      | tcp seg iss => exact h.patient_segment hsound
      | udp d => trivial
      | timer i now => trivial
    | _ => trivial

end World

/-- **Main theorem.**  Whatever arrives and whoever calls, from the start on: every queue is sound
in every state and nobody is accepted twice if and only if every step is patient. -/
theorem accepts_iff (es : List Happening) :
    (Always World.step World.Sound {} es ∧ EachStep World.step World.ReturnsNew {} es) ↔
      EachStep World.step World.Patient {} es :=
  always_and_eachStep_iff (I := World.Inv) (fun _ h => World.Inv.sound h)
    (fun _ e h _ => World.Inv.returnsNew h e) (fun _ _ h hq => World.Inv.step h hq)
    (fun _ e h hs _ => World.Inv.patient h e hs) World.empty_inv

/-! ### A connection that is lost, one that stays, and one that is nobody's -/

/-- A segment from one peer to port 80. -/
def fromPeer (flags : Flags) (seq ack : UInt32) : Happening :=
  .event (.arrive
    (.tcp { srcIp := ⟨10, 0, 0, 2⟩, srcPort := 5000, dstPort := 80, flags, seq, ack } 100))

/-- A listener, and the first segment of a handshake. -/
def oneSyn : List Happening :=
  [.event .socketTcp, .event (.bind 0 80), .event (.listen 0 1), fromPeer { syn := true } 7 0]

/-- The connection is complete, and the peer has nothing to send. -/
def finBeforeAccept : List Happening :=
  oneSyn ++ [fromPeer { ack := true } 8 101, fromPeer { fin := true, ack := true } 8 101]

def resetBeforeAccept : List Happening := oneSyn ++ [fromPeer { rst := true } 8 0]

def closedWithQueue : List Happening := oneSyn ++ [.event (.close 0)]

theorem queues_unsound : ¬ Always World.step World.Sound {} finBeforeAccept ∧
    ¬ Always World.step World.Sound {} resetBeforeAccept ∧
    ¬ Always World.step World.Sound {} closedWithQueue := by
  refine ⟨fun h => ?_, fun h => ?_, fun h => ?_⟩
  · have hchild : (Traces.run World.step {} finBeforeAccept).ledger.child 1 =
        some { listener := 0, completed := true } := by decide +kernel
    exact absurd (h.last.established hchild rfl rfl) (by decide +kernel)
  · have hstuck : World.Stuck (Traces.run World.step {} resetBeforeAccept) 0 1 :=
      ⟨by decide +kernel, by decide +kernel, by decide +kernel, by decide +kernel,
        by decide +kernel, by decide +kernel, Or.inl (by decide +kernel)⟩
    exact hstuck.not_releasable (h.last.released 0 1 hstuck.place { listener := 0, reset := true }
      (by decide +kernel) (Or.inl rfl))
  · exact absurd h.last.counted (by decide +kernel)

end IndexOS.Antennas
