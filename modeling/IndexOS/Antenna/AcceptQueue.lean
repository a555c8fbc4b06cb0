import IndexOS.Antenna.Backlog
import IndexOS.Antenna.Demux

/-!
# Every connection is accepted in its turn

As long as every child in a queue completes its handshake and is neither reset nor finished, a queue
holds exactly the children that have not been accepted, and the one that is complete and has waited
longest is the next.

* `Called` — what the calls do that have nothing to do with the queue;
* `Waits`, `World.Inv` — the invariant, and a child in a queue;
* `World.Inv.step` — every step that is patient keeps it;
* `World.Inv.sound`, `World.Inv.returnsNew` — what it says of the queues.
-/

set_option autoImplicit false

namespace IndexOS.Antennas

open List
open Function (update update_eq_self update_idem update_of_ne update_self)

variable {g : Ledger} {a : Antenna} {t' : Table} {seg : Segment} {gone : List (Ip × Port)}

/-! ## The first of a list that has a property -/

theorem idxOf_erase_of_find {α : Type} [DecidableEq α] {p : α → Bool} {c d : α} {l : List α}
    (hc : l.find? p = some c) (hd : d ∈ l) (hp : p d = true) (hne : d ≠ c) :
    (l.erase c).idxOf d + 1 = l.idxOf d := by
  induction l with
  | nil => cases hd
  | cons x rest ih =>
    rw [find?_cons] at hc
    split at hc
    · obtain rfl := Option.some.inj hc
      rw [erase_cons_head, idxOf_cons_ne _ (Ne.symm hne)]
    next hx =>
      have hcx : x ≠ c := by
        rintro rfl
        exact absurd (find?_some hc) (by simp [hx])
      have hdx : x ≠ d := by
        rintro rfl
        exact absurd hp (by simp [hx])
      have hd' : d ∈ rest := (mem_cons.1 hd).resolve_left (Ne.symm hdx)
      rw [erase_cons_tail (by simpa using hcx), idxOf_cons_ne _ hdx, idxOf_cons_ne _ hdx,
        ← ih hc hd']

/-! ## Calls that have nothing to do with the queue -/

namespace Antenna

/-- The connection has been asked for, and nobody has closed it here. -/
def Open (a : Antenna) : Prop :=
  a.tcpState = .synSent ∨ a.tcpState = .synRcvd ∨ a.tcpState = .established ∨
    a.tcpState = .closeWait ∨ a.tcpState = .reset

/-- A socket with a descriptor: it has no peer yet, or a connection that is open. -/
def Calm (a : Antenna) : Prop :=
  ((a.tcpState = .closed ∨ a.tcpState = .listen) ∧ a.hasRemote = false ∧ a.txBuf = []) ∨ a.Open

/-- Segments close no connection from here. -/
theorem handle_open {self : Slot} {out : List Effect} (h : a.Open) :
    (a.handle self out seg).1.Open := by
  rw [handle]
  split
  · exact Or.inr (Or.inr (Or.inr (Or.inr rfl)))
  rcases h with h | h | h | h | h <;> rw [h] <;> dsimp only
  · split
    · exact Or.inr (Or.inr (Or.inl rfl))
    · exact Or.inl h
  · split
    · split <;> exact Or.inr (Or.inr (Or.inl rfl))
    · exact Or.inr (Or.inl h)
  · have hstate :=
      (onPayload_sameState (a.onAck seg) self seg).tcpState.trans (onAck_established h seg)
    rw [onFin]
    split
    · exact Or.inr (Or.inr (Or.inr (Or.inl (by rw [hstate]; rfl))))
    · exact Or.inr (Or.inr (Or.inl hstate))
  · exact Or.inr (Or.inr (Or.inr (Or.inl h)))
  · exact Or.inr (Or.inr (Or.inr (Or.inr h)))

structure Called (a b : Antenna) : Prop where
  proto : b.proto = a.proto
  refs : b.refs = a.refs
  queue : b.acceptQueue = a.acceptQueue
  backlog : a.tcpState ≠ .closed → b.backlog = a.backlog
  listen : a.tcpState = .listen → b.tcpState = .listen
  calm : a.proto = .tcp → a.Calm → b.Calm

theorem Called.refl (a : Antenna) : Called a a := ⟨rfl, rfl, rfl, fun _ => rfl, id, fun _ => id⟩

theorem Called.of_steady {a b : Antenna} (h : a.Steady b) (hstate : b.tcpState = a.tcpState) :
    Called a b := by
  refine ⟨h.proto, h.refs, h.acceptQueue, fun _ => h.backlog, fun hl => hstate.trans hl,
    fun _ hcalm => ?_⟩
  rw [Calm, Open] at ⊢
  rw [hstate, h.hasRemote]
  exact hcalm.imp_left fun hx => ⟨hx.1, hx.2.1, h.tx hx.2.2⟩

end Antenna

open Antenna

namespace Table

variable {t : Table} {i : Slot}

/-- The call has touched nothing but the socket that it names. -/
structure CallsOnly (t : Table) (i : Slot) (t' : Table) : Prop where
  closing : t'.closing = t.closing
  ants : ∃ a, (t.ants i).Called a ∧ t'.ants = update t.ants i a

theorem CallsOnly.of_same (hclosing : t'.closing = t.closing) (hants : t'.ants = t.ants) :
    CallsOnly t i t' :=
  ⟨hclosing, _, Called.refl _, by rw [hants, update_eq_self]⟩

theorem CallsOnly.of_set (hants : t'.ants = (t.set i a).ants) (hclosing : t'.closing = t.closing)
    (hcalled : (t.ants i).Called a) : CallsOnly t i t' :=
  ⟨hclosing, a, hcalled, hants⟩

section
variable (t : Table) (i : Slot) (ip : Ip) (port : Port) (iss : UInt32) (now : Nat) (cap : Nat)

theorem bind_callsOnly : CallsOnly t i (t.bind i port).1 := by
  have hclosing : (t.bind i port).1.closing = t.closing := by
    rw [bind]
    split
    · rfl
    split
    · split <;> rfl
    · dsimp only
      split <;> rfl
  rcases t.bind_spec i port with hsame | ⟨p, -, -, heq⟩
  · exact .of_same hclosing hsame
  · exact .of_set heq hclosing ⟨rfl, rfl, rfl, fun _ => rfl, id, fun _ => id⟩

theorem implicitBind_callsOnly : CallsOnly t i (t.implicitBind i) := by
  obtain ⟨p, -, heq⟩ := t.implicitBind_spec i
  refine .of_set heq ?_ ⟨rfl, rfl, rfl, fun _ => rfl, id, fun _ => id⟩
  rw [implicitBind]
  split <;> rfl

theorem tcpConnect_closing : (t.tcpConnect i ip port iss now).1.closing = t.closing := by
  have hbind := (t.implicitBind_callsOnly i).closing
  rw [tcpConnect]
  split
  · rfl
  split
  · rfl
  dsimp only
  split <;> exact hbind

theorem connect_callsOnly : CallsOnly t i (t.connect i ip port iss now).1 := by
  rw [connect]
  split
  · exact .of_same rfl rfl
  split
  next htcp =>
    have hclosing := t.tcpConnect_closing i ip port iss now
    rcases t.tcpConnect_spec i ip port iss now with hsame | hbound | ⟨p, -, hclosed, -, heq⟩
    · rw [hsame]
      exact .of_same rfl rfl
    · rw [hbound]
      exact t.implicitBind_callsOnly i
    · refine .of_set heq hclosing ⟨rfl, rfl, rfl, fun _ => rfl, fun hl => ?_, fun _ _ => ?_⟩
      · cases hclosed.symm.trans hl
      · exact Or.inr (Or.inl rfl)
  next hudp =>
    obtain ⟨hclosing, a, hcalled, heq⟩ := implicitBind_callsOnly
      (t.set i { t.ants i with remoteIp := ip, remotePort := port, hasRemote := true }) i
    rw [set_ants, if_pos rfl] at hcalled
    refine ⟨hclosing, a,
      ⟨hcalled.proto, hcalled.refs, hcalled.queue, hcalled.backlog, hcalled.listen,
      fun htcp => absurd htcp hudp⟩, heq.trans ?_⟩
    exact update_idem _ _ _

theorem tcpListen_callsOnly (backlog : Nat) : CallsOnly t i (t.tcpListen i backlog).1 := by
  rcases t.tcpListen_spec i backlog with hsame | ⟨n, -, hclosed, -, heq⟩
  · rw [hsame]
    exact .of_same rfl rfl
  · rw [heq]
    refine .of_set rfl rfl ⟨rfl, rfl, rfl, fun hne => absurd hclosed hne, fun _ => rfl,
      fun _ hcalm => ?_⟩
    rcases hcalm with hblank | hopen
    · exact Or.inl ⟨Or.inr rfl, hblank.2⟩
    · rw [Open, hclosed] at hopen
      exact nomatch hopen

theorem sendto_callsOnly (dst : Option Ip) (dstPort : Port) :
    CallsOnly t i (t.sendto i dst dstPort).1 := by
  rw [sendto]
  split
  · exact .of_same rfl rfl
  extract_lets a ip port t'
  split
  · exact .of_same rfl rfl
  split
  · exact .of_same rfl rfl
  split <;> exact t.implicitBind_callsOnly i

theorem recvfrom_callsOnly : CallsOnly t i (t.recvfrom i cap).1 := by
  rw [recvfrom]
  split
  · exact .of_same rfl rfl
  · exact .of_set rfl rfl ⟨rfl, rfl, rfl, fun _ => rfl, id, fun _ => id⟩

theorem tcpSend_callsOnly (buf : List UInt8) (now : Nat) :
    CallsOnly t i (t.tcpSend i buf now).1 := by
  rw [tcpSend]
  split
  · exact .of_same rfl rfl
  split
  · exact .of_same rfl rfl
  split
  · exact .of_same rfl rfl
  next hstate =>
    split
    · exact .of_same rfl rfl
    · refine .of_set rfl rfl ⟨rfl, rfl, rfl, fun _ => rfl, id, fun _ _ => Or.inr ?_⟩
      rw [not_and_or, not_not, not_not] at hstate
      rcases hstate with hs | hs
      · exact Or.inr (Or.inr (Or.inl hs))
      · exact Or.inr (Or.inr (Or.inr (Or.inl hs)))

theorem tcpTryRecv_callsOnly : CallsOnly t i (t.tcpTryRecv i cap).1 := by
  rw [tcpTryRecv]
  split
  · exact .of_same rfl rfl
  · exact .of_set rfl rfl
      (Called.of_steady ((t.ants i).take_steady cap) ((t.ants i).take_sameState cap).tcpState)

end

end Table

/-! ## The invariant -/

/-- The socket of a child that waits to be accepted. -/
structure Waits (a : Antenna) (gone : List (Ip × Port)) (k : Child) : Prop where
  proto : a.proto = .tcp
  refs : a.refs = 1
  remote : a.hasRemote = true
  tx : a.txBuf = []
  ring : a.rx.avail ≤ kAntennaRxBytes
  queue : a.acceptQueue = []
  notReset : k.reset = false
  state : a.tcpState = if k.completed then .established else .synRcvd
  alive : k.completed = false → k.since = 0 ∧ (a.remoteIp, a.remotePort) ∉ gone

/-- A socket with `n` descriptors; `shut` says that the last one is being closed. -/
structure Owned (shut : Prop) (a : Antenna) (n : Nat) : Prop where
  pos : 0 < n
  refs : a.refs.toNat = n
  max : n ≤ kMaxDescriptors
  busy : a.proto ≠ .free
  calm : a.proto = .tcp → ¬ shut → a.Calm
  last : shut → n = 1 ∧ a.acceptQueue = [] ∧ a.tcpState ≠ .listen
  listens : a.acceptQueue ≠ [] → a.proto = .tcp ∧ a.tcpState = .listen
  short : a.acceptQueue.length ≤ a.backlog

/-- A place in the table: free, with descriptors, or waiting. -/
inductive Fits (shut : Prop) (gone : List (Ip × Port)) (a : Antenna) : Nat → Option Child → Prop
  | free (proto : a.proto = .free) (queue : a.acceptQueue = []) (tx : a.txBuf = []) (out : ¬ shut) :
    Fits shut gone a 0 none
  | owned {n : Nat} (h : Owned shut a n) : Fits shut gone a n none
  | waits {k : Child} (h : Waits a gone k) (out : ¬ shut) : Fits shut gone a 0 (some k)

theorem Waits.isOpen {k : Child} (hw : Waits a gone k) : a.Open := by
  have hstate := hw.state
  split at hstate
  · exact Or.inr (Or.inr (Or.inl hstate))
  · exact Or.inr (Or.inl hstate)

theorem Child.hear_keeps (k : Child) (a : Antenna) (seg : Segment) :
    (k.hear a seg).listener = k.listener ∧ (k.hear a seg).since = k.since := by
  rw [Child.hear]
  split
  · exact ⟨rfl, rfl⟩
  split <;> exact ⟨rfl, rfl⟩

/-- The child still waits after a segment that neither resets nor finishes it. -/
theorem Waits.hear {c : Slot} {k : Child} (hw : Waits a gone k)
    (hrst : seg.flags.rst = false) (hfin : a.tcpState = .established → ¬ a.TakesFin seg)
    (out : List Effect) :
    Waits (a.handle c out seg).1 gone (k.hear a seg) := by
  have hsteady := a.handle_steady c out seg
  have hstate := hw.state
  have hbasic : ∀ {k' : Child}, (a.handle c out seg).1.rx.avail ≤ kAntennaRxBytes →
      k'.reset = false →
      ((a.handle c out seg).1.tcpState = if k'.completed then .established else .synRcvd) →
      (k'.completed = false → k'.since = 0 ∧ (a.remoteIp, a.remotePort) ∉ gone) →
      Waits (a.handle c out seg).1 gone k' := fun hring hreset hs halive =>
    ⟨hsteady.proto.trans hw.proto, hsteady.refs.trans hw.refs, hsteady.hasRemote.trans hw.remote,
      hsteady.tx hw.tx, hring, hsteady.acceptQueue.trans hw.queue, hreset, hs,
      by rw [hsteady.remoteIp, hsteady.remotePort]; exact halive⟩
  rw [Child.hear, if_neg (by simp [hrst])]
  cases hdone : k.completed with
  | true =>
    rw [hdone] at hstate
    obtain ⟨hnext, hring⟩ := handle_of_established c out hstate hw.ring hrst
    rw [if_neg (hfin hstate)] at hnext
    rw [if_neg fun hx => absurd (hstate.symm.trans hx.1) (by simp)]
    exact hbasic hring hw.notReset (by rw [hdone]; exact hnext) fun hno =>
      nomatch hdone.symm.trans hno
  | false =>
    rw [hdone] at hstate
    by_cases hack : seg.flags.ack = true ∧ seg.ack = a.sndNxt
    · obtain ⟨hnext, hring⟩ := handle_of_third c out hstate hw.ring hrst hack
      rw [if_pos ⟨hstate, hack⟩]
      exact hbasic hring hw.notReset hnext nofun
    · rw [if_neg fun hx => hack hx.2, handle_of_not_third c out hstate hrst hack]
      exact hw

open Table World

namespace World

/-- Every place is as it should be, and the queues hold the children that wait, each in its turn. -/
structure Inv (w : World) : Prop where
  fits : ∀ i, Fits (i ∈ w.table.closing) w.ledger.gone (w.table.ants i) (w.ledger.owned i)
    (w.ledger.child i)
  distinct : w.table.closing.Nodup
  queued : ∀ l c, c ∈ w.queue l ↔ ∃ k, w.ledger.child c = some k ∧ k.listener = l
  nodup : ∀ l, (w.queue l).Nodup
  turn : ∀ c k, w.ledger.child c = some k → k.completed = true →
    k.since + (w.queue k.listener).idxOf c < (w.table.ants k.listener).backlog

variable {w : World} {i c l : Slot} {k : Child} {a : Antenna} {n : Nat}

section
variable (h : Inv w)
include h

theorem Inv.child (hc : w.ledger.child c = some k) :
    Waits (w.table.ants c) w.ledger.gone k ∧ w.ledger.owned c = 0 ∧ c ∉ w.table.closing := by
  have hfits := h.fits c
  generalize w.ledger.owned c = n at hfits
  rw [hc] at hfits
  cases hfits with
  | waits hw hout => exact ⟨hw, rfl, hout⟩

theorem Inv.mine (hown : 0 < w.ledger.owned i) :
    Owned (i ∈ w.table.closing) (w.table.ants i) (w.ledger.owned i) ∧ w.ledger.child i = none := by
  have hfits := h.fits i
  generalize w.ledger.owned i = n at hfits hown
  generalize w.ledger.child i = k at hfits
  cases hfits with
  | free | waits => exact absurd hown (Nat.lt_irrefl 0)
  | owned ho => exact ⟨ho, rfl⟩

theorem Inv.unused (hfree : (w.table.ants i).proto = .free) :
    w.ledger.owned i = 0 ∧ w.ledger.child i = none ∧ w.queue i = [] ∧ (w.table.ants i).txBuf = [] ∧
      i ∉ w.table.closing := by
  have hfits := h.fits i
  generalize w.ledger.owned i = n at hfits
  generalize w.ledger.child i = k at hfits
  cases hfits with
  | free hproto hqueue htx hout => exact ⟨rfl, rfl, hqueue, htx, hout⟩
  | owned ho => exact absurd hfree ho.busy
  | waits hw => cases hw.proto.symm.trans hfree

theorem Inv.known (hbusy : (w.table.ants i).proto ≠ .free) :
    0 < w.ledger.owned i ∨ ∃ k, w.ledger.child i = some k := by
  have hfits := h.fits i
  generalize w.ledger.owned i = n at hfits
  generalize w.ledger.child i = k at hfits
  cases hfits with
  | free hproto => exact absurd hproto hbusy
  | owned ho => exact Or.inl ho.pos
  | waits => exact Or.inr ⟨_, rfl⟩

theorem Inv.ne_of_owned (hown : 0 < w.ledger.owned i) (hc : w.ledger.child c = some k) : c ≠ i := by
  rintro rfl
  cases (h.mine hown).2.symm.trans hc

theorem Inv.closing (hin : i ∈ w.table.closing) : w.ledger.owned i = 1 ∧ w.queue i = [] ∧
    (w.table.ants i).tcpState ≠ .listen := by
  have hfits := h.fits i
  generalize w.ledger.owned i = n at hfits
  generalize w.ledger.child i = k at hfits
  cases hfits with
  | free hproto hqueue htx hout | waits hw hout => exact absurd hin hout
  | owned ho => exact ho.last hin

theorem Inv.place (hc : w.ledger.child c = some k) : c ∈ w.queue k.listener :=
  (h.queued k.listener c).2 ⟨k, hc, rfl⟩

/-- Who has a queue has descriptors and listens. -/
theorem Inv.listens (hne : w.queue l ≠ []) : 0 < w.ledger.owned l ∧ (w.table.ants l).proto = .tcp ∧
    (w.table.ants l).tcpState = .listen := by
  have hown : 0 < w.ledger.owned l := by
    refine (h.known fun hfree => hne (h.unused hfree).2.2.1).resolve_right ?_
    rintro ⟨k, hk⟩
    exact hne (h.child hk).1.queue
  exact ⟨hown, (h.mine hown).1.listens hne⟩

theorem Inv.not_closing (hl : w.queue l ≠ []) : l ∉ w.table.closing := fun hin =>
  hl (h.closing hin).2.1

theorem Inv.not_queued (hfree : (w.table.ants c).proto = .free) (l : Slot) : c ∉ w.queue l := by
  intro hc
  obtain ⟨k, hk, -⟩ := (h.queued l c).1 hc
  cases (h.unused hfree).2.1.symm.trans hk

/-- No child is of a listener without a queue. -/
theorem Inv.listener_ne (hempty : w.queue i = []) (hc : w.ledger.child c = some k) :
    k.listener ≠ i := by
  rintro rfl
  exact absurd (h.place hc) (by rw [hempty]; simp)

end

/-- The place `i` has become `a`, with `n` descriptors, and no queue changes. -/
structure Near (w : World) (i : Slot) (a : Antenna) (n : Nat) (w' : World) : Prop where
  ants : w'.table.ants = update w.table.ants i a
  owned : w'.ledger.owned = update w.ledger.owned i n
  closing : ∀ j, j ≠ i → (j ∈ w'.table.closing ↔ j ∈ w.table.closing)
  distinct : w'.table.closing.Nodup
  gone : w'.ledger.gone = w.ledger.gone
  queue : a.acceptQueue = w.queue i
  backlog : w.queue i ≠ [] → a.backlog = (w.table.ants i).backlog

theorem Inv.near (h : Inv w) {w' : World} {k' : Option Child} (hn : Near w i a n w')
    (hchild : w'.ledger.child = update w.ledger.child i k')
    (hfits : Fits (i ∈ w'.table.closing) w.ledger.gone a n k')
    (hsame : k'.map Child.listener = (w.ledger.child i).map Child.listener)
    (hturn : ∀ k, k' = some k → k.completed = true →
      k.since + (w.queue k.listener).idxOf i < (w.table.ants k.listener).backlog) : Inv w' := by
  have hself : w'.table.ants i = a := by rw [hn.ants, update_self]
  have hants : ∀ j, j ≠ i → w'.table.ants j = w.table.ants j :=
    fun j hj => by rw [hn.ants, update_of_ne hj]
  have hkid : w'.ledger.child i = k' := by rw [hchild, update_self]
  have hkids : ∀ j, j ≠ i → w'.ledger.child j = w.ledger.child j :=
    fun j hj => by rw [hchild, update_of_ne hj]
  have hqueue : ∀ l, w'.queue l = w.queue l := fun l => by
    by_cases hl : l = i
    · rw [queue, hl, hself, hn.queue]
    · rw [queue, hants l hl, queue]
  have hlistener :
    ∀ c, (w'.ledger.child c).map Child.listener = (w.ledger.child c).map Child.listener :=
    fun c => by
    by_cases hc : c = i
    · rw [hc, hkid, hsame]
    · rw [hkids c hc]
  have hiff : ∀ l c, c ∈ w'.queue l ↔ ∃ k, w'.ledger.child c = some k ∧ k.listener = l :=
    fun l c => by
    rw [hqueue, h.queued, ← Option.map_eq_some_iff, ← Option.map_eq_some_iff, hlistener]
  refine ⟨fun j => ?_, hn.distinct, hiff, fun l => by rw [hqueue]; exact h.nodup l,
    fun c k hc hdone => ?_⟩
  · rw [hn.gone, hn.owned]
    by_cases hj : j = i
    · rw [hj, hself, hkid, update_self]
      exact hfits
    · rw [hants j hj, hkids j hj, hn.closing j hj, update_of_ne hj]
      exact h.fits j
  · have hbacklog : (w'.table.ants k.listener).backlog = (w.table.ants k.listener).backlog := by
      by_cases hl : k.listener = i
      · have hplace := (hiff k.listener c).2 ⟨k, hc, rfl⟩
        rw [hqueue, hl] at hplace
        rw [hl, hself, hn.backlog (ne_nil_of_mem hplace)]
      · rw [hants _ hl]
    rw [hqueue, hbacklog]
    by_cases heq : c = i
    · rw [heq, hkid] at hc
      rw [heq]
      exact hturn k hc hdone
    · rw [hkids c heq] at hc
      exact h.turn c k hc hdone

/-- The same for a place that is nobody's child. -/
theorem Inv.near_of_none (h : Inv w) {w' : World} (hn : Near w i a n w')
    (hchild : w'.ledger.child = w.ledger.child) (hnone : w.ledger.child i = none)
    (hfits : Fits (i ∈ w'.table.closing) w.ledger.gone a n none) : Inv w' :=
  h.near hn (by rw [hchild, ← hnone, update_eq_self]) hfits (by rw [hnone]) nofun

/-- Something is done to a socket with descriptors that has nothing to do with them and leaves its
queue. -/
theorem Inv.touch (h : Inv w) (hown : 0 < w.ledger.owned i)
    (hants : t'.ants = update w.table.ants i a)
    (hclosing : t'.closing = w.table.closing) (hproto : a.proto = (w.table.ants i).proto)
    (hrefs : a.refs = (w.table.ants i).refs) (hqueue : a.acceptQueue = w.queue i)
    (hbacklog : w.queue i ≠ [] → a.backlog = (w.table.ants i).backlog)
    (hlisten : w.queue i ≠ [] → a.tcpState = .listen)
    (hcalm : a.proto = .tcp → i ∉ w.table.closing → a.Calm)
    (hwait : i ∈ w.table.closing → a.tcpState ≠ .listen) : Inv ⟨t', w.ledger⟩ := by
  obtain ⟨ho, hnone⟩ := h.mine hown
  refine h.near_of_none
    ⟨hants, (update_eq_self ..).symm, fun _ _ => by rw [hclosing], hclosing ▸ h.distinct, rfl,
    hqueue, hbacklog⟩ rfl hnone ?_
  rw [hclosing]
  refine .owned ⟨ho.pos, hrefs ▸ ho.refs, ho.max, hproto ▸ ho.busy, hcalm,
    fun hin => ⟨(ho.last hin).1, hqueue.trans (ho.last hin).2.1, hwait hin⟩, fun hne => ?_, ?_⟩
  · rw [hqueue] at hne
    exact ⟨hproto.trans (ho.listens hne).1, hlisten hne⟩
  · by_cases hne : w.queue i = []
    · rw [hqueue, hne]
      exact Nat.zero_le _
    · rw [hqueue, hbacklog hne]
      exact ho.short

theorem holds_iff : w.holds i = true ↔ 0 < w.ledger.owned i ∧ i ∉ w.table.closing := by simp [holds]

section
variable (h : Inv w)
include h

/-- A call that has nothing to do with the queue. -/
theorem Inv.plain (hcalls : w.table.CallsOnly i t') (hholds : w.holds i = true) :
    Inv ⟨t', w.ledger⟩ := by
  obtain ⟨hown, hout⟩ := holds_iff.1 hholds
  obtain ⟨hclosing, a, hcalled, hants⟩ := hcalls
  refine h.touch hown hants hclosing hcalled.proto hcalled.refs hcalled.queue (fun hne => ?_)
    (fun hne => ?_) (fun htcp _ => ?_) fun hin => absurd hin hout
  · refine hcalled.backlog fun hclosed => ?_
    cases (h.listens hne).2.2.symm.trans hclosed
  · exact hcalled.listen (h.listens hne).2.2
  · have htcp' := hcalled.proto.symm.trans htcp
    exact hcalled.calm htcp' ((h.mine hown).1.calm htcp' hout)

/-! ## Descriptors come and go -/

/-- One more or one less descriptor. -/
theorem Inv.recount (hown : 0 < w.ledger.owned i) {r : UInt16} (hout : i ∉ w.table.closing)
    (hn : 0 < n) (hr : r.toNat = n) (hmax : n ≤ kMaxDescriptors) :
    Inv ⟨w.table.set i { w.table.ants i with refs := r },
      { w.ledger with owned := update w.ledger.owned i n }⟩ := by
  obtain ⟨ho, hnone⟩ := h.mine hown
  refine h.near_of_none ⟨rfl, rfl, fun _ _ => Iff.rfl, h.distinct, rfl, rfl, fun _ => rfl⟩ rfl
    hnone ?_
  exact .owned ⟨hn, hr, hmax, ho.busy, ho.calm, fun hin => absurd hin hout, ho.listens, ho.short⟩

/-- The last descriptor is closed, and the connection is shut down first. -/
theorem Inv.linger (hown : w.ledger.owned i = 1) (hout : i ∉ w.table.closing)
    (hants : t'.ants = update w.table.ants i a) (hclosing : t'.closing = i :: w.table.closing)
    (hproto : a.proto = (w.table.ants i).proto) (hrefs : a.refs = 1)
    (hqueue : a.acceptQueue = w.queue i)
    (hempty : w.queue i = []) (hstate : a.tcpState ≠ .listen) : Inv ⟨t', w.ledger⟩ := by
  obtain ⟨ho, hnone⟩ := h.mine (i := i) (by omega)
  have hin : i ∈ t'.closing := by rw [hclosing]; exact mem_cons_self
  refine h.near_of_none ⟨hants, (update_eq_self ..).symm, fun j hj => ?_, ?_, rfl, hqueue,
    fun hne => absurd hempty hne⟩ rfl hnone ?_
  · rw [hclosing, mem_cons]
    exact ⟨fun hj' => hj'.resolve_left hj, Or.inr⟩
  · rw [hclosing]
    exact nodup_cons.2 ⟨hout, h.distinct⟩
  · rw [hown]
    rw [hempty] at hqueue
    exact .owned ⟨by decide, by rw [hrefs]; rfl, by decide, hproto ▸ ho.busy,
      fun _ hnot => absurd hin hnot,
      fun _ => ⟨rfl, hqueue, hstate⟩,
        fun hne => absurd hqueue hne, by rw [hqueue]; exact Nat.zero_le _⟩

theorem Inv.release_child (hempty : w.queue i = []) :
    (w.ledger.release i).child = w.ledger.child := by
  funext c
  rw [Ledger.release]
  dsimp only
  cases hc : w.ledger.child c with
  | none => rfl
  | some k => rw [Option.filter_some, if_pos (by simpa using h.listener_ne hempty hc)]

/-- A socket without a queue is freed. -/
theorem Inv.release (hown : 0 < w.ledger.owned i) (hempty : w.queue i = [])
    (hants : t'.ants = update w.table.ants i {})
    (hclosing : ∀ j, j ∈ t'.closing ↔ j ∈ w.table.closing ∧ j ≠ i) (hdistinct : t'.closing.Nodup) :
    Inv ⟨t', w.ledger.release i⟩ := by
  have hnone := (h.mine hown).2
  refine h.near_of_none ⟨hants, rfl, fun j hj => ?_, hdistinct, rfl, hempty.symm,
    fun hne => absurd hempty hne⟩ (h.release_child hempty) hnone ?_
  · rw [hclosing]
    exact and_iff_left hj
  · exact .free rfl rfl rfl fun hin => ((hclosing i).1 hin).2 rfl

/-- A free place is given to somebody. -/
theorem Inv.socket (hfree : (w.table.ants i).proto = .free) (hproto : a.proto ≠ .free)
    (hrefs : a.refs = 1) (hqueue : a.acceptQueue = []) (hcalm : a.Calm) :
    Inv ⟨w.table.set i a, w.ledger.acquire (some i)⟩ := by
  obtain ⟨-, hnone, hempty, -, hout⟩ := h.unused hfree
  refine h.near_of_none ⟨rfl, rfl, fun _ _ => Iff.rfl, h.distinct, rfl, hqueue.trans hempty.symm,
    fun hne => absurd hempty hne⟩ rfl hnone ?_
  exact .owned ⟨by decide, by rw [hrefs]; rfl, by decide, hproto, fun _ _ => hcalm,
    fun hin => absurd hin hout,
    fun hne => absurd hqueue hne, by rw [hqueue]; exact Nat.zero_le _⟩

/-! ## Children -/

/-- The child has been heard of, and still waits. -/
theorem Inv.hear (hc : w.ledger.child c = some k) {k' : Child} {g' : Ledger}
    (hants : t'.ants = update w.table.ants c a) (hclosing : t'.closing = w.table.closing)
    (howned : g'.owned = w.ledger.owned) (hgone : g'.gone = w.ledger.gone)
    (hchild : g'.child = update w.ledger.child c (some k')) (hlistener : k'.listener = k.listener)
    (hsince : k'.since = k.since) (hw : Waits a w.ledger.gone k') : Inv ⟨t', g'⟩ := by
  obtain ⟨hw₀, hnobody, hout⟩ := h.child hc
  refine h.near ⟨hants, howned.trans (update_eq_self ..).symm, fun _ _ => by rw [hclosing],
    hclosing ▸ h.distinct,
    hgone, hw.queue.trans hw₀.queue.symm, fun hne => absurd hw₀.queue hne⟩ hchild ?_ ?_
      fun k'' hk'' hdone => ?_
  · rw [hnobody, hclosing]
    exact .waits hw hout
  · rw [hc, Option.map_some, Option.map_some, hlistener]
  · obtain rfl := Option.some.inj hk''
    rw [hlistener, hsince]
    by_cases hbefore : k.completed = true
    · exact h.turn c k hc hbefore
    · -- it has just been completed, and is somewhere in the queue
      rw [(hw₀.alive (Bool.eq_false_iff.2 hbefore)).1, Nat.zero_add]
      have hplace := h.place hc
      exact Nat.lt_of_lt_of_le (idxOf_lt_length_iff.2 hplace)
        (h.mine (h.listens (ne_nil_of_mem hplace)).1).1.short

/-- A child comes to the end of the queue of its listener. -/
theorem Inv.spawn (hfree : (w.table.ants c).proto = .free)
    (hlisten : (w.table.ants l).tcpState = .listen) (htcp : (w.table.ants l).proto = .tcp)
    (hroom : (w.queue l).length < (w.table.ants l).backlog) {g' : Ledger}
    (hself : Waits (t'.ants c) w.ledger.gone { listener := l })
    (hants : ∀ j, j ≠ c → j ≠ l → t'.ants j = w.table.ants j)
    (hlst : t'.ants l = { w.table.ants l with acceptQueue := w.queue l ++ [c] })
    (hclosing : t'.closing = w.table.closing) (howned : g'.owned = w.ledger.owned)
    (hgone : g'.gone = w.ledger.gone)
    (hchild : g'.child = update w.ledger.child c (some { listener := l })) :
    Inv ⟨t', g'⟩ := by
  obtain ⟨hnobody, hnone, hempty, -, hout⟩ := h.unused hfree
  have hownl : 0 < w.ledger.owned l := by
    refine (h.known (by rw [htcp]; decide)).resolve_right ?_
    rintro ⟨k, hk⟩
    have hopen := (h.child hk).1.isOpen
    rw [Open, hlisten] at hopen
    exact nomatch hopen
  obtain ⟨ho, hnonel⟩ := h.mine hownl
  have hlqueue : queue ⟨t', g'⟩ l = w.queue l ++ [c] := by rw [queue, hlst]
  have hqueues : ∀ j, j ≠ l → queue ⟨t', g'⟩ j = w.queue j := fun j hj => by
    by_cases heq : j = c
    · rw [heq, hempty]
      exact hself.queue
    · rw [queue, hants j heq hj, queue]
  have hkid : ∀ j, j ≠ c → g'.child j = w.ledger.child j := fun j hj => by
    rw [hchild, update_of_ne hj]
  have hkid' : g'.child c = some { listener := l } := by rw [hchild, update_self]
  refine ⟨fun j => ?_, hclosing ▸ h.distinct, fun m d => ?_, fun m => ?_, fun d k hd hdone => ?_⟩
  · rw [hclosing, howned, hgone]
    by_cases hjc : j = c
    · rw [hjc, hkid', hnobody]
      exact .waits hself hout
    rw [hkid j hjc]
    by_cases hjl : j = l
    · rw [hjl, hlst, hnonel]
      exact .owned ⟨ho.pos, ho.refs, ho.max, ho.busy, ho.calm,
        fun hin => absurd hlisten (ho.last hin).2.2,
        fun _ => ⟨htcp, hlisten⟩, by rw [length_append]; exact hroom⟩
    · rw [hants j hjc hjl]
      exact h.fits j
  · by_cases hdc : d = c
    · rw [hdc, hkid']
      by_cases hml : m = l
      · rw [hml, hlqueue]
        exact iff_of_true (by simp) ⟨_, rfl, rfl⟩
      · rw [hqueues m hml]
        refine iff_of_false (h.not_queued hfree m) ?_
        rintro ⟨k, hk, hl⟩
        obtain rfl := Option.some.inj hk
        exact hml hl.symm
    · rw [hkid d hdc, ← h.queued m d]
      by_cases hml : m = l
      · rw [hml, hlqueue, mem_append, mem_singleton, or_iff_left hdc]
      · rw [hqueues m hml]
  · by_cases hml : m = l
    · rw [hml, hlqueue]
      refine nodup_append.2 ⟨h.nodup l, nodup_singleton c, fun d hd d' hd' => ?_⟩
      rw [mem_singleton.1 hd']
      rintro rfl
      exact h.not_queued hfree l hd
    · rw [hqueues m hml]
      exact h.nodup m
  · have hdc : d ≠ c := by
      rintro rfl
      obtain rfl := Option.some.inj (hkid'.symm.trans hd)
      cases hdone
    rw [hkid d hdc] at hd
    have hturn := h.turn d k hd hdone
    by_cases hkl : k.listener = l
    · have hplace := h.place hd
      rw [hkl] at hplace hturn ⊢
      rw [hlqueue, hlst, idxOf_append_of_mem hplace]
      exact hturn
    · rw [hqueues _ hkl, hants _ (h.listener_ne hempty hd) hkl]
      exact hturn

theorem Inv.acceptable (hc : w.table.acceptable l = some c) :
    c ∈ w.queue l ∧ ∃ k, w.ledger.child c = some k ∧ k.listener = l := by
  have hmem : c ∈ w.queue l := mem_of_find?_eq_some hc
  exact ⟨hmem, (h.queued l c).1 hmem⟩

/-- The first established child is accepted. -/
theorem Inv.accept (hc : w.table.acceptable l = some c) :
    Inv ⟨w.table.set l { w.table.ants l with acceptQueue := (w.table.ants l).acceptQueue.erase c },
      w.ledger.accepted l c⟩ := by
  obtain ⟨hmem, kc, hkc, hkcl⟩ := h.acceptable hc
  obtain ⟨hwc, hnobody, hcout⟩ := h.child hkc
  have hlist := h.listens (ne_nil_of_mem hmem)
  obtain ⟨ho, hnonel⟩ := h.mine hlist.1
  have hcl : c ≠ l := h.ne_of_owned hlist.1 hkc
  set t' := w.table.set
    l { w.table.ants l with acceptQueue := (w.table.ants l).acceptQueue.erase c } with ht'
  have hself : t'.ants l = { w.table.ants l with acceptQueue := (w.queue l).erase c } := update_self
    ..
  have hother : ∀ j, j ≠ l → t'.ants j = w.table.ants j := fun j hj => update_of_ne hj _ _
  have hlqueue : queue ⟨t', w.ledger.accepted l c⟩ l = (w.queue l).erase c := by rw [queue, hself]
  have hqueues : ∀ j, j ≠ l → queue ⟨t', w.ledger.accepted l c⟩ j = w.queue j := fun j hj => by
    rw [queue, hother j hj, queue]
  have hown : ∀ j, j ≠ c → (w.ledger.accepted l c).owned j = w.ledger.owned j := fun j hj =>
    update_of_ne hj _ _
  have hownc : (w.ledger.accepted l c).owned c = 1 := update_self ..
  have hkidc : (w.ledger.accepted l c).child c = none := by simp only [Ledger.accepted, update_self]
  have hkid : ∀ j, j ≠ c → (w.ledger.accepted l c).child j = (w.ledger.child j).map fun k =>
      if k.listener = l ∧ k.completed then { k with since := k.since + 1 } else k := fun j hj => by
    simp only [Ledger.accepted, update_of_ne hj]
  have hlistener : ∀ k : Child,
      (if k.listener = l ∧ k.completed then { k with since :=
        k.since + 1 } else k).listener = k.listener := fun k => by
    split <;> rfl
  refine ⟨fun j => ?_, h.distinct, fun m d => ?_, fun m => ?_, fun d k hd hdone => ?_⟩
  · by_cases hjc : j = c
    · rw [hjc, hownc, hkidc, hother c hcl]
      exact .owned ⟨by decide, by rw [hwc.refs]; rfl, by decide, by rw [hwc.proto]; decide,
        fun _ _ => Or.inr hwc.isOpen, fun hin => absurd hin hcout, fun hne => absurd hwc.queue hne,
        by rw [hwc.queue]; exact Nat.zero_le _⟩
    rw [hown j hjc, hkid j hjc]
    by_cases hjl : j = l
    · rw [hjl, hself, hnonel]
      exact .owned ⟨ho.pos, ho.refs, ho.max, ho.busy, ho.calm,
        fun hin => absurd hlist.2.2 (ho.last hin).2.2, fun _ => hlist.2, length_erase_le.trans
          ho.short⟩
    rw [hother j hjl]
    cases hkj : w.ledger.child j with
    | none =>
      have hfits := h.fits j
      rw [hkj] at hfits
      exact hfits
    | some k =>
      obtain ⟨hw, hzero, hout⟩ := h.child hkj
      rw [hzero, Option.map_some]
      refine .waits ?_ hout
      split
      next hboth => exact { hw with alive := fun hno => nomatch hboth.2.symm.trans hno }
      · exact hw
  · by_cases hdc : d = c
    · rw [hdc, hkidc]
      refine iff_of_false ?_ (by simp)
      by_cases hml : m = l
      · rw [hml, hlqueue]
        exact (h.nodup l).not_mem_erase
      · rw [hqueues m hml, h.queued]
        rintro ⟨k, hk, hkm⟩
        obtain rfl := Option.some.inj (hkc.symm.trans hk)
        exact hml (hkm.symm.trans hkcl)
    · have hsame : (∃ k, (w.ledger.accepted l c).child d = some k ∧ k.listener = m) ↔ d ∈ w.queue
        m := by
        rw [hkid d hdc, h.queued]
        constructor
        · rintro ⟨k, hk, hkm⟩
          obtain ⟨k₀, hk₀, rfl⟩ := Option.map_eq_some_iff.1 hk
          exact ⟨k₀, hk₀, (hlistener k₀).symm.trans hkm⟩
        · rintro ⟨k₀, hk₀, hkm⟩
          exact ⟨_, by rw [hk₀, Option.map_some], (hlistener k₀).trans hkm⟩
      rw [hsame]
      by_cases hml : m = l
      · rw [hml, hlqueue, mem_erase_of_ne hdc]
      · rw [hqueues m hml]
  · by_cases hml : m = l
    · rw [hml, hlqueue]
      exact (h.nodup l).erase c
    · rw [hqueues m hml]
      exact h.nodup m
  · have hdc : d ≠ c := by
      rintro rfl
      cases hkidc.symm.trans hd
    rw [hkid d hdc, Option.map_eq_some_iff] at hd
    obtain ⟨k₀, hk₀, rfl⟩ := hd
    have hdone₀ : k₀.completed = true := by
      split at hdone <;> exact hdone
    have hturn := h.turn d k₀ hk₀ hdone₀
    by_cases hkl : k₀.listener = l
    · have hplace := h.place hk₀
      have hest : (w.table.ants d).tcpState = .established := by
        rw [(h.child hk₀).1.state, hdone₀]
        rfl
      rw [hkl] at hplace hturn ⊢
      have hidx := idxOf_erase_of_find hc hplace (by simpa using hest) hdc
      rw [if_pos ⟨rfl, hdone₀⟩, hlqueue, hself]
      dsimp only
      rw [queue] at hturn ⊢
      omega
    · rw [if_neg fun hboth => hkl hboth.1, hqueues _ hkl, hother _ hkl]
      exact hturn

end

/-! ## Arrivals -/

theorem heard_eq_self {t t' : Table} (hchild : (g.heard t seg t').child = g.child) :
    g.heard t seg t' = g := by
  change Ledger.mk g.owned (g.heard t seg t').child g.gone = g
  rw [hchild]

theorem heard_of_same {t t' : Table} (hants : t'.ants = t.ants)
    (hnone : t.connectionFor seg = none) : g.heard t seg t' = g := by
  refine heard_eq_self (funext fun d => ?_)
  rw [Ledger.heard]
  dsimp only
  rw [if_neg (fun hx => hx.2 (by rw [hants]; exact hx.1)), if_neg (by rw [hnone]; simp)]

theorem heard_of_connection {t t' : Table} {c : Slot}
    (hprotos : ∀ d, (t'.ants d).proto = (t.ants d).proto) (hc : t.connectionFor seg = some c) :
    (g.heard t seg t').child =
      update g.child c ((g.child c).map fun k => k.hear (t.ants c) seg) := by
  funext d
  rw [Ledger.heard]
  dsimp only
  rw [if_neg (fun hx => hx.2 ((hprotos d).trans hx.1)), hc]
  by_cases hd : d = c
  · rw [hd, if_pos rfl, update_self]
  · rw [if_neg (fun hx => hd (Option.some.inj hx).symm), update_of_ne hd]

section
variable (h : Inv w)
include h

/-- Something happens to a connection that has descriptors and is open unless it is being closed. -/
theorem Inv.settle (hown : 0 < w.ledger.owned i) {r : Antenna × List Effect}
    (hsteady : (w.table.ants i).Steady r.1)
    (hopen : (w.table.ants i).proto = .tcp → i ∉ w.table.closing → (w.table.ants i).Open)
    (hstill : (w.table.ants i).Open → r.1.Open) : Inv ⟨w.table.put i r, w.ledger⟩ := by
  have hempty : w.queue i = [] := by
    by_contra hne
    obtain ⟨-, htcp, hstate⟩ := h.listens hne
    have hx := hopen htcp (h.not_closing hne)
    rw [Open, hstate] at hx
    exact nomatch hx
  refine h.touch hown (put_ants ..) rfl hsteady.proto hsteady.refs hsteady.acceptQueue
    (fun hne => absurd hempty hne) (fun hne => absurd hempty hne) (fun htcp hout => ?_)
    fun hin hlisten => ?_
  · exact Or.inr (hstill (hopen (hsteady.proto.symm.trans htcp) hout))
  · exact (h.closing hin).2.2 (hsteady.listen hlisten)

/-- A segment for a socket that has descriptors. -/
theorem Inv.hearOwned (hconn : w.table.connectionFor seg = some i) (hown : 0 < w.ledger.owned i)
    (out : List Effect) : Inv ⟨w.table.put i ((w.table.ants i).handle i out seg), w.ledger⟩ := by
  refine h.settle hown ((w.table.ants i).handle_steady i out seg) (fun htcp hout => ?_) handle_open
  refine ((h.mine hown).1.calm htcp hout).resolve_left fun hblank => ?_
  exact absurd (hblank.2.1.symm.trans (isPeer_iff.1 (of_connectionFor hconn).2.2).1) (by simp)

/-- A SYN makes a child. -/
theorem Inv.arriveSyn {iss : UInt32} (hmay : (seg.srcIp, seg.srcPort) ∉ w.ledger.gone)
    (hconn : w.table.connectionFor seg = none) (hlst : w.table.listenerFor seg = some l)
    (hroom : (w.queue l).length < (w.table.ants l).backlog) (hfree : (w.table.ants c).proto = .free)
    (ht' : t'.ants =
      (((w.table.set c (Table.child seg iss)).set l
      { (w.table.set c (Table.child seg iss)).ants l with acceptQueue :=
      ((w.table.set c (Table.child seg iss)).ants l).acceptQueue ++ [c] })).ants)
    (hclosing : t'.closing = w.table.closing) : Inv ⟨t', w.ledger.heard w.table seg t'⟩ := by
  obtain ⟨htcp, -, hlisten⟩ := of_listenerFor hlst
  have hcl : c ≠ l := by
    rintro rfl
    cases htcp.symm.trans hfree
  have hself : t'.ants c = Table.child seg iss := by
    rw [ht', set_ants, if_neg hcl, set_ants, if_pos rfl]
  have hants : ∀ j, j ≠ c → j ≠ l → t'.ants j = w.table.ants j := fun j hj hjl => by
    rw [ht', set_ants, if_neg hjl, set_ants, if_neg hj]
  have hl : t'.ants l = { w.table.ants l with acceptQueue := w.queue l ++ [c] } := by
    rw [ht', set_ants, if_pos rfl, set_ants, if_neg hcl.symm, queue]
  have hchild : (w.ledger.heard w.table seg t').child =
      update w.ledger.child c (some { listener := l }) := by
    funext d
    rw [Ledger.heard]
    dsimp only
    by_cases hd : d = c
    · rw [hd, if_pos ⟨hfree, by rw [hself]; simp [Table.child]⟩, hlst, update_self, Option.map_some]
    · rw [if_neg, hconn, if_neg (by simp), update_of_ne hd]
      rintro ⟨hfree', hbusy⟩
      by_cases hdl : d = l
      · rw [hdl] at hfree'
        cases htcp.symm.trans hfree'
      · rw [hants d hd hdl] at hbusy
        exact hbusy hfree'
  refine h.spawn hfree hlisten htcp hroom ?_ hants hl hclosing rfl rfl hchild
  rw [hself]
  exact ⟨rfl, rfl, rfl, rfl, Nat.zero_le _, rfl, rfl, rfl, fun _ => ⟨rfl, hmay⟩⟩

theorem Inv.arriveTcp {iss : UInt32} (hmay : (seg.srcIp, seg.srcPort) ∉ w.ledger.gone)
    (hpatient : ∀ l, ∀ c ∈ w.queue l, w.table.connectionFor seg = some c → seg.flags.rst = false ∧
      ((w.table.ants c).tcpState = .established → ¬ (w.table.ants c).TakesFin seg)) :
    Inv ⟨(w.table.deliverTcp seg iss).1, w.ledger.heard w.table seg
      (w.table.deliverTcp seg iss).1⟩ := by
  rw [deliverTcp]
  cases hconn : w.table.connectionFor seg with
  | some i =>
    set a := (w.table.ants i).handle i (w.table.accepting i) seg with ha
    have hsteady : (w.table.ants i).Steady a.1 := (w.table.ants i).handle_steady i _ seg
    have hprotos : ∀ d, ((w.table.put i a).ants d).proto = (w.table.ants d).proto := fun d => by
      rw [put_ants]
      by_cases hd : d = i
      · rw [hd, update_self, hsteady.proto]
      · rw [update_of_ne hd]
    have hheard := heard_of_connection (g := w.ledger) hprotos hconn
    cases hchild : w.ledger.child i with
    | none =>
      have hown : 0 < w.ledger.owned i := by
        refine (h.known ?_).resolve_right (by simp [hchild])
        rw [(of_connectionFor hconn).1]
        decide
      have hsame : w.ledger.heard w.table seg (w.table.put i a) = w.ledger := by
        rw [hchild, Option.map_none, ← hchild, update_eq_self] at hheard
        exact heard_eq_self hheard
      rw [hsame]
      exact h.hearOwned hconn hown _
    | some k =>
      obtain ⟨hrst, hfin⟩ := hpatient k.listener i (h.place hchild) hconn
      rw [hchild] at hheard
      exact h.hear hchild (put_ants ..) rfl rfl rfl hheard (Child.hear_keeps ..).1
        (Child.hear_keeps ..).2 ((h.child hchild).1.hear hrst hfin _)
  | none =>
    dsimp only
    split
    · cases hlst : w.table.listenerFor seg with
      | none => rw [heard_of_same rfl hconn]; exact h
      | some l =>
        dsimp only
        rw [Table.spawn]
        split
        · rw [heard_of_same rfl hconn]
          exact h
        next hroom =>
          cases hfree : w.table.allocate with
          | none => rw [heard_of_same rfl hconn]; exact h
          | some c =>
            exact h.arriveSyn hmay hconn hlst (by rw [queue]; omega) (of_allocate hfree)
              rfl rfl
    · rw [heard_of_same rfl hconn]
      exact h

theorem Inv.congr (hants : t'.ants = w.table.ants) (hclosing : t'.closing = w.table.closing) :
    Inv ⟨t', w.ledger⟩ := by
  obtain ⟨⟨ants, ephemeral, closing, out⟩, ledger⟩ := w
  obtain ⟨ants', ephemeral', closing', out'⟩ := t'
  obtain rfl : ants' = ants := hants
  obtain rfl : closing' = closing := hclosing
  exact ⟨h.fits, h.distinct, h.queued, h.nodup, h.turn⟩

theorem Inv.arriveUdp (d : Datagram) : Inv ⟨(w.table.deliverUdp d).1, w.ledger⟩ := by
  rw [deliverUdp]
  cases hfor : w.table.udpFor d with
  | none => exact h
  | some i =>
    dsimp only
    split
    · exact h
    · have hudp := (of_udpFor hfor).1.1
      have hown : 0 < w.ledger.owned i := by
        refine (h.known (by rw [hudp]; decide)).resolve_right ?_
        rintro ⟨k, hk⟩
        cases (h.child hk).1.proto.symm.trans hudp
      refine h.touch hown rfl rfl rfl rfl rfl (fun _ => rfl) (fun hne => (h.listens hne).2.2)
        (fun htcp => by cases hudp.symm.trans htcp) fun hin => (h.closing hin).2.2

theorem Inv.timer (i : Slot) (now : Nat) :
    Inv ⟨w.table.put i ((w.table.ants i).tcpCheckRetransmit now), w.ledger⟩ := by
  by_cases htx : (w.table.ants i).txBuf = []
  · rw [tcpCheckRetransmit, if_pos (Or.inl (by rw [htx]; rfl))]
    exact h.congr (by rw [put_ants, update_eq_self]) rfl
  · have hsteady := (w.table.ants i).tcpCheckRetransmit_steady now
    have hown : 0 < w.ledger.owned i := by
      refine (h.known fun hfree => htx (h.unused hfree).2.2.2.1).resolve_right ?_
      rintro ⟨k, hk⟩
      exact htx (h.child hk).1.tx
    refine h.settle hown hsteady (fun htcp hout => ?_) fun hx => ?_
    · exact ((h.mine hown).1.calm htcp hout).resolve_left fun hblank => htx hblank.2.2
    · rw [tcpCheckRetransmit]
      split
      · exact hx
      split
      · exact Or.inr (Or.inr (Or.inr (Or.inr rfl)))
      · exact hx

/-! ## Every step -/

theorem Inv.open_ {proto : Proto} (hproto : proto ≠ .free) :
    Inv ⟨(w.table.socket proto).1, w.ledger.acquire (w.table.socket proto).2⟩ := by
  rw [Table.socket]
  cases hfree : w.table.allocate with
  | none => exact h
  | some i => exact h.socket (of_allocate hfree) hproto rfl rfl (Or.inl ⟨Or.inl rfl, rfl, rfl⟩)

theorem Inv.incRef (hholds : w.holds i = true) (hroom : w.ledger.owned i < kMaxDescriptors) :
    Inv ⟨w.table.incRef i,
      { w.ledger with owned := update w.ledger.owned i (w.ledger.owned i + 1) }⟩ := by
  obtain ⟨hown, hout⟩ := holds_iff.1 hholds
  have ho := (h.mine hown).1
  rw [Table.incRef, if_pos (by simp [Table.valid, ho.busy])]
  refine h.recount hown hout (Nat.succ_pos _) ?_ hroom
  rw [UInt16.toNat_add, ho.refs]
  simp only [kMaxDescriptors] at hroom
  have : (1 : UInt16).toNat = 1 := rfl
  omega

theorem Inv.acceptOne (l : Slot) :
    Inv ⟨(w.table.tcpTryAccept l).1,
      w.ledger.note w.table (.accept l) (w.table.tcpTryAccept l).1⟩ := by
  rw [Ledger.note, tcpTryAccept]
  split
  · exact h
  split
  · exact h
  cases hc : w.table.acceptable l with
  | none => exact h
  | some c => exact h.accept hc

theorem Inv.close (hholds : w.holds i = true)
    (hpatient : (w.table.ants i).refs = 1 → w.queue i = []) :
    Inv ⟨w.table.close i, w.ledger.note w.table (.close i) (w.table.close i)⟩ := by
  obtain ⟨hown, hout⟩ := holds_iff.1 hholds
  have ho := (h.mine hown).1
  have hrefs := ho.refs
  have hmax := ho.max
  have hvalid : ¬ ¬ w.table.valid i = true := by simp [valid, ho.busy]
  have hdec : antRefDec (w.table.ants i).refs = (w.table.ants i).refs - 1 := by
    rw [antRefDec, if_pos]
    rw [UInt16.lt_iff_toNat_lt, hrefs]
    exact hown
  have hnat : ((w.table.ants i).refs - 1).toNat = w.ledger.owned i - 1 := by
    rw [UInt16.toNat_sub_of_le, hrefs]
    · rfl
    · rw [UInt16.le_iff_toNat_le, hrefs]
      exact hown
  rw [Ledger.note, Table.close, hdec]
  dsimp only
  rw [if_neg hvalid]
  by_cases hlast : (w.table.ants i).refs - 1 = 0
  · have hone : w.ledger.owned i = 1 := by
      rw [hlast] at hnat
      have : (0 : UInt16).toNat = 0 := rfl
      omega
    have href : (w.table.ants i).refs = 1 := by
      rw [← UInt16.toNat_inj, hrefs, hone]
      rfl
    have hempty := hpatient href
    rw [if_neg (not_not.2 hlast)]
    split
    · rw [if_pos mem_cons_self]
      refine h.linger hone hout (a := (shut { w.table.ants i with refs := 1 }
        (if (w.table.ants i).tcpState = .established then .finWait1 else .lastAck)).1) ?_ rfl
          rfl rfl rfl
        hempty ?_
      · rw [Table.tcpClose, Table.put_ants]
        simp only [Table.set, update_self, update_idem]
      · dsimp only [shut]
        split <;> decide
    · rw [set_closing, if_neg hout, if_pos (by rw [set_ants, if_pos rfl])]
      refine h.release hown hempty rfl (fun j => ⟨fun hj => ⟨hj, ?_⟩, And.left⟩) h.distinct
      rintro rfl
      exact hout hj
  · have htwo : 2 ≤ w.ledger.owned i := by
      by_contra hlt
      refine hlast ?_
      rw [← UInt16.toNat_inj]
      have : (0 : UInt16).toNat = 0 := rfl
      omega
    rw [if_pos hlast, set_closing, if_neg hout, if_neg]
    · exact h.recount hown hout (by omega) hnat (by omega)
    · rw [set_ants, if_pos rfl]
      exact ho.busy

theorem Inv.closeDone (i : Slot) :
    Inv ⟨w.table.closeDone i, w.ledger.note w.table (.closeDone i) (w.table.closeDone i)⟩ := by
  rw [Ledger.note, Table.closeDone]
  by_cases hin : i ∈ w.table.closing
  · rw [if_pos hin, if_pos hin]
    obtain ⟨hown, hempty, -⟩ := h.closing hin
    exact h.release (by omega) hempty rfl (fun j => by rw [h.distinct.mem_erase_iff, and_comm])
      (h.distinct.erase i)
  · rw [if_neg hin, if_neg hin]
    exact h

theorem Inv.depart {ip : Ip} {port : Port}
    (hpatient : ∀ l, ∀ c ∈ w.queue l, (w.table.ants c).tcpState = .synRcvd →
      isPeer (w.table.ants c) ip port = false) :
    Inv { w with ledger := { w.ledger with gone := (ip, port) :: w.ledger.gone } } := by
  refine ⟨fun c => ?_, h.distinct, h.queued, h.nodup, h.turn⟩
  have hfits := h.fits c
  cases hc : w.ledger.child c with
  | none =>
    rw [hc] at hfits
    generalize w.ledger.owned c = n at hfits
    cases hfits with
    | free hproto hqueue htx hout => exact .free hproto hqueue htx hout
    | owned ho => exact .owned ho
  | some k =>
    obtain ⟨hw, hnobody, hout⟩ := h.child hc
    rw [hnobody]
    refine .waits { hw with alive := fun hno => ?_ } hout
    obtain ⟨hsince, halive⟩ := hw.alive hno
    have hstate : (w.table.ants c).tcpState = .synRcvd := by
      rw [hw.state, hno]
      rfl
    refine ⟨hsince, fun hin => ?_⟩
    rcases mem_cons.1 hin with heq | hin
    · obtain ⟨hip, hport⟩ := Prod.mk.inj heq
      have hpeer := hpatient k.listener c (h.place hc) hstate
      rw [isPeer_iff.2 ⟨hw.remote, hip, hport⟩] at hpeer
      cases hpeer
    · exact halive hin

theorem Inv.step {e : Happening} (hpatient : w.Patient e) : Inv (w.step e) := by
  cases e with
  | gone ip port => exact h.depart hpatient
  | event e =>
    rw [World.step]
    by_cases hmay : w.may e = true
    · rw [if_pos hmay]
      cases e with
      | socketUdp | socketTcp => exact h.open_ (by decide)
      | incRef i =>
        have hboth : w.holds i = true ∧ w.ledger.owned
          i < kMaxDescriptors := by simpa [may] using hmay
        exact h.incRef hboth.1 hboth.2
      | bind i port => exact h.plain (w.table.bind_callsOnly i port) hmay
      | connect i ip port iss now =>
        exact h.plain (w.table.connect_callsOnly i ip port iss now) hmay
      | listen i backlog => exact h.plain (w.table.tcpListen_callsOnly i backlog) hmay
      | sendto i dst port => exact h.plain (w.table.sendto_callsOnly i dst port) hmay
      | recvfrom i cap => exact h.plain (w.table.recvfrom_callsOnly i cap) hmay
      | send i buf now => exact h.plain (w.table.tcpSend_callsOnly i buf now) hmay
      | recv i cap => exact h.plain (w.table.tcpTryRecv_callsOnly i cap) hmay
      | accept i => exact h.acceptOne i
      | close i => exact h.close hmay (hpatient hmay)
      | closeDone i => exact h.closeDone i
      | arrive x =>
        cases x with
        | tcp seg iss => exact h.arriveTcp (by simpa [may] using hmay) (hpatient hmay)
        | udp d => exact h.arriveUdp d
        | timer i now => exact h.timer i now
    · rw [if_neg hmay]
      exact h

end

theorem empty_inv : Inv {} where
  fits _ := .free rfl rfl rfl (by simp)
  distinct := nodup_nil
  queued l c := iff_of_false (by simp [queue]) (by simp)
  nodup _ := nodup_nil
  turn c k hc := nomatch hc

/-! ## What the invariant says -/

theorem tcpTryAccept_eq {t : Table} (htcp : (t.ants l).proto = .tcp)
    (hlisten : (t.ants l).tcpState = .listen) (hc : t.acceptable l = some c) : t.tcpTryAccept l =
      (t.set l { t.ants l with acceptQueue := (t.ants l).acceptQueue.erase c }, some c) := by
  rw [tcpTryAccept, if_neg (by simp [valid, htcp]), if_neg (not_not.2 hlisten), hc]

/-- Who is established is accepted when those before it have been. -/
theorem acceptTimes_spec {t : Table} (htcp : (t.ants l).proto = .tcp)
    (hlisten : (t.ants l).tcpState = .listen)
    (hest : (t.ants c).tcpState = .established) (hin : c ∈ (t.ants l).acceptQueue) :
    ∃ n ≤ (t.ants l).acceptQueue.idxOf c, (acceptTimes l n t).acceptable l = some c := by
  induction hn : (t.ants l).acceptQueue.idxOf c using Nat.strong_induction_on generalizing t with
  | _ n ih =>
    cases hd : t.acceptable l with
    | none => exact absurd hest (by simpa using find?_eq_none.1 hd c hin)
    | some d =>
      by_cases hdc : d = c
      · exact ⟨0, Nat.zero_le _, by rw [← hdc]; exact hd⟩
      · have hidx := idxOf_erase_of_find hd hin (by simpa using hest) (Ne.symm hdc)
        have hcl : c ≠ l := by
          rintro rfl
          cases hest.symm.trans hlisten
        have htry := tcpTryAccept_eq htcp hlisten hd
        obtain ⟨m, hm, hfound⟩ := ih (n - 1) (by omega) (t := (t.tcpTryAccept l).1)
          (by rw [htry, set_ants, if_pos rfl]; exact htcp)
          (by rw [htry, set_ants, if_pos rfl]; exact hlisten)
          (by rw [htry, set_ants, if_neg hcl]; exact hest)
          (by rw [htry, set_ants, if_pos rfl]; exact (mem_erase_of_ne (Ne.symm hdc)).2 hin)
          (by rw [htry, set_ants, if_pos rfl]; dsimp only; omega)
        exact ⟨m + 1, by omega, hfound⟩

variable (h : Inv w)
include h

theorem Inv.served (hc : w.ledger.child c = some k) (hdone : k.completed = true) :
    ∃ n, k.since + n < (w.table.ants k.listener).backlog ∧
      (acceptTimes k.listener n w.table).acceptable k.listener = some c := by
  have hplace := h.place hc
  obtain ⟨-, htcp, hlisten⟩ := h.listens (ne_nil_of_mem hplace)
  have hest : (w.table.ants c).tcpState = .established := by
    rw [(h.child hc).1.state, hdone]
    rfl
  obtain ⟨n, hn, hfound⟩ := acceptTimes_spec htcp hlisten hest hplace
  have hturn := h.turn c k hc hdone
  rw [queue] at hturn
  exact ⟨n, by omega, hfound⟩

theorem Inv.counted : (Finset.univ.filter fun i => (w.table.ants i).proto ≠ .free).card =
    (Finset.univ.filter fun i => 0 < w.ledger.owned i).card +
      (Finset.univ.filter fun c => ∃ l, c ∈ w.queue l).card := by
  rw [← Finset.card_union_of_disjoint, ← Finset.filter_or]
  · refine congrArg Finset.card (Finset.filter_congr fun i _ => ⟨fun hbusy => ?_, ?_⟩)
    · refine (h.known hbusy).imp_right ?_
      rintro ⟨k, hk⟩
      exact ⟨k.listener, h.place hk⟩
    · rintro (hown | ⟨l, hl⟩)
      · exact (h.mine hown).1.busy
      · exact fun hfree => h.not_queued hfree l hl
  · refine Finset.disjoint_filter.2 fun i _ hown => ?_
    rintro ⟨l, hl⟩
    obtain ⟨k, hk, -⟩ := (h.queued l i).1 hl
    exact h.ne_of_owned hown hk rfl

theorem Inv.sound : Sound w where
  queued l c hc := by
    obtain ⟨k, hk, hl⟩ := (h.queued l c).1 hc
    exact ⟨(h.child hk).1.proto, k, hk, hl⟩
  nodup := h.nodup
  served c k hc hdone _ := h.served hc hdone
  released l c _ k hk hdead := by
    have hw := (h.child hk).1
    rcases hdead with hreset | ⟨hno, hgone⟩
    · cases hw.notReset.symm.trans hreset
    · exact absurd hgone (hw.alive hno).2
  counted := h.counted

theorem Inv.returnsNew (e : Happening) : w.ReturnsNew e := by
  unfold ReturnsNew
  split
  next i =>
    intro _ c hc
    have hfound : w.table.acceptable i = some c := by
      rw [tcpTryAccept] at hc
      split at hc
      · cases hc
      split at hc
      · cases hc
      cases hd : w.table.acceptable i with
      | none => rw [hd] at hc; cases hc
      | some d => rw [hd] at hc; exact hc
    obtain ⟨-, k, hk, hl⟩ := h.acceptable hfound
    exact ⟨(h.child hk).2.1, k, hk, hl⟩
  · trivial

end World
end IndexOS.Antennas
