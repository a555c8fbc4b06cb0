import IndexOS.Channel.Table

/-!
# Who is connected to whom, and who holds what

`Links` is what holds of the faces of the sockets together with the number of descriptors for each:
peers are mutual, every reference is a descriptor or a place in a queue, and who waits in a queue
waits in one, with nothing else.  There is one lemma for each thing that is done to a face; the
calls are made of them.
-/

set_option autoImplicit false

namespace IndexOS.Channels

open List
open Function (update update_apply update_of_ne)

/-- In how many places the socket waits to be accepted. -/
def waiting (f : Slot → Face) (i : Slot) : Nat :=
    tally (fun _ (c : Face) => c.acceptQueue.count i) f

structure Links (f : Slot → Face) (held : Slot → Nat) : Prop where
  blank : ∀ i, (f i).kind = .free → f i = {}
  peer : ∀ i j, (f i).peer = some j → (f j).peer = some i ∧ i ≠ j ∧ (f i).state = .connected
  refs : ∀ i, (f i).refs = held i + waiting f i
  used : ∀ i, (f i).kind ≠ .free → 0 < (f i).refs
  queue : ∀ l, (f l).acceptQueue ≠ [] → (f l).state = .listen
  queued : ∀ l, ∀ i ∈ (f l).acceptQueue, held i = 0 ∧ (f i).refs = 1 ∧
    ((f i).state = .connected ∨ (f i).state = .peerGone)

namespace Links

variable {f : Slot → Face} {held : Slot → Nat} {i j c l : Slot}

section
variable (h : Links f held)
include h

theorem busy (hown : 0 < held i) : (f i).kind ≠ .free := by
  intro hfree
  have hrefs := h.refs i
  rw [h.blank i hfree] at hrefs
  have : ({} : Face).refs = 0 := rfl
  omega

theorem not_queued (hown : 0 < held i) (l : Slot) : i ∉ (f l).acceptQueue := by
  intro hin
  have := (h.queued l i hin).1
  omega

theorem free_not_queued (hfree : (f i).kind = .free) (l : Slot) : i ∉ (f l).acceptQueue := by
  intro hin
  have hone := (h.queued l i hin).2.1
  rw [h.blank i hfree] at hone
  cases hone

end

theorem waiting_update {x : Face} (hq : x.acceptQueue = (f i).acceptQueue) (j : Slot) :
    waiting (update f i x) j = waiting f j := tally_same (by rw [hq])

variable (h : Links f held)
include h

/-- The number of references and of descriptors is all that the other sockets see of a change that
leaves the peer and the queue. -/
theorem relabel {x : Face} {n : Nat} (hkind : x.kind = .free → x = {}) (hpeer : x.peer = (f i).peer)
    (hstate : x.peer ≠ none → x.state = .connected) (hqueue : x.acceptQueue = (f i).acceptQueue)
    (hlisten : x.acceptQueue ≠ [] → x.state = .listen) (hrefs : x.refs = n + waiting f i)
    (hused : x.kind ≠ .free → 0 < x.refs) (hout : ∀ l, i ∉ (f l).acceptQueue) :
    Links (update f i x) (update held i n) := by
  have hwaiting := waiting_update hqueue
  obtain ⟨blank, peer, refs, used, queue, queued⟩ := h
  constructor
  all_goals grind [update_apply]

/-- A free slot is taken. -/
theorem allocate (hfree : (f i).kind = .free) (s : State) :
    Links (update f i { kind := .stream, state := s, refs := 1 }) (update held i 1) := by
  have hblank := h.blank i hfree
  have hrefs := h.refs i
  rw [hblank] at hrefs
  refine h.relabel (nofun) ?_ (fun hx => absurd rfl hx) ?_ (fun hx => absurd rfl hx) ?_
    (fun _ => Nat.one_pos) (h.free_not_queued hfree)
  · rw [hblank]
  · rw [hblank]
  · have : ({} : Face).refs = 0 := rfl
    dsimp only
    omega

/-- The peers of one pair of sockets are set; nobody else has one of them for a peer. -/
theorem repeer (hij : i ≠ j) {x y : Face} (hx : x.kind = (f i).kind ∧ x.refs = (f i).refs)
    (hy : y.kind = (f j).kind ∧ y.refs = (f j).refs) (hxq : x.acceptQueue = (f i).acceptQueue)
    (hyq : y.acceptQueue = (f j).acceptQueue) (hxs : x.state = .connected ∨ x.state = .peerGone)
    (hys : y.state = .connected ∨ y.state = .peerGone) (hi : (f i).acceptQueue = [])
    (hj : (f j).acceptQueue = []) (hbi : (f i).kind ≠ .free) (hbj : (f j).kind ≠ .free)
    (hother : ∀ k, k ≠ i → k ≠ j → (f k).peer ≠ some i ∧ (f k).peer ≠ some j)
    (hpeers : (x.peer = some j ∧ y.peer = some i ∧ x.state = .connected ∧ y.state = .connected) ∨
      (x.peer = none ∧ y.peer = none)) :
    Links (update (update f i x) j y) held := by
  have hwaiting : ∀ k, waiting (update (update f i x) j y) k = waiting f k := fun k => by
    rw [waiting_update (by rw [update_of_ne hij.symm, hyq]), waiting_update hxq]
  obtain ⟨blank, peer, refs, used, queue, queued⟩ := h
  constructor
  all_goals grind [update_apply]

/-- Two sockets without a peer are connected. -/
theorem link (hij : i ≠ j) (hi : (f i).peer = none) (hj : (f j).peer = none)
    (hqi : (f i).acceptQueue = [])
    (hqj : (f j).acceptQueue = []) (hbi : (f i).kind ≠ .free) (hbj : (f j).kind ≠ .free) :
    Links (update (update f i { f i with state := .connected, peer := some j }) j
      { f j with state := .connected, peer := some i }) held := by
  refine h.repeer hij ⟨rfl, rfl⟩ ⟨rfl, rfl⟩ rfl rfl (Or.inl rfl) (Or.inl rfl) hqi hqj hbi hbj
    (fun k _ _ => ?_) (Or.inl ⟨rfl, rfl, rfl, rfl⟩)
  constructor <;> intro hk
  · cases (h.peer k i hk).1.symm.trans hi
  · cases (h.peer k j hk).1.symm.trans hj

theorem queue_nil (hstate : (f i).state ≠ .listen) : (f i).acceptQueue = [] := by
  by_contra hne
  exact hstate (h.queue i hne)

theorem peer_none (hstate : (f i).state ≠ .connected) : (f i).peer = none := by
  by_contra hne
  obtain ⟨p, hp⟩ := Option.ne_none_iff_exists'.1 hne
  exact hstate (h.peer i p hp).2.2

/-- The one goes away, and the other is told. -/
theorem part (hpeer : (f i).peer = some j) :
    Links (update (update f i { f i with peer := none }) j
      { f j with state := .peerGone, peer := none }) held := by
  obtain ⟨hback, hij, hci⟩ := h.peer i j hpeer
  have hcj := (h.peer j i hback).2.2
  have hempty : ∀ k, (f k).state = .connected → (f k).acceptQueue = [] := fun k hk =>
    h.queue_nil (by rw [hk]; decide)
  have hbusy : ∀ k, (f k).state = .connected → (f k).kind ≠ .free := fun k hk hfree => by
    rw [h.blank k hfree] at hk
    cases hk
  refine h.repeer hij ⟨rfl, rfl⟩ ⟨rfl, rfl⟩ rfl rfl (Or.inl hci) (Or.inr rfl) (hempty i hci)
    (hempty j hcj)
    (hbusy i hci) (hbusy j hcj) (fun k hki hkj => ⟨fun hk => ?_, fun hk => ?_⟩) (Or.inr ⟨rfl, rfl⟩)
  · exact hkj (Option.some.inj ((h.peer k i hk).1.symm.trans hpeer))
  · exact hki (Option.some.inj ((h.peer k j hk).1.symm.trans hback))

/-- One place in a queue is exchanged for one descriptor, or the other way round. -/
theorem requeue {q : List Slot} {n : Nat} (hlisten : (f l).state = .listen)
    (hcount : ∀ k, k ≠ c → q.count k = (f l).acceptQueue.count k)
    (hrefs : n + q.count c = held c + (f l).acceptQueue.count c)
    (hc : ∀ k, (k = l ∧ c ∈ q) ∨ (k ≠ l ∧ c ∈ (f k).acceptQueue) → n = 0 ∧ (f c).refs = 1 ∧
      ((f c).state = .connected ∨ (f c).state = .peerGone)) :
    Links (update f l { f l with acceptQueue := q }) (update held c n) := by
  have hwaiting :
      ∀ k, waiting (update f l { f l with acceptQueue := q }) k + (f l).acceptQueue.count k =
      waiting f k + q.count k := fun k =>
    tally_update (fun _ (x : Face) => x.acceptQueue.count k) f l { f l with acceptQueue := q }
  obtain ⟨blank, peer, refs, used, queue, queued⟩ := h
  constructor
  all_goals grind [update_apply]

theorem enqueue (hlisten : (f l).state = .listen) (hown : held c = 1) (hrefs : (f c).refs = 1)
    (hstate : (f c).state = .connected) :
    Links (update f l { f l with acceptQueue := (f l).acceptQueue ++ [c] }) (update held c 0) := by
  refine h.requeue hlisten (fun k hk => ?_) ?_ fun _ _ => ⟨rfl, hrefs, Or.inl hstate⟩
  · rw [count_append, count_singleton, if_neg (by simpa using hk.symm), Nat.add_zero]
  · rw [count_append, count_singleton_self]
    omega

theorem dequeue {rest : List Slot} (hqueue : (f l).acceptQueue = c :: rest) :
    Links (update f l { f l with acceptQueue := rest }) (update held c 1) := by
  have hin : c ∈ (f l).acceptQueue := by rw [hqueue]; exact mem_cons_self
  obtain ⟨hheld, hone, -⟩ := h.queued l c hin
  have hrefs := h.refs c
  have hwaiting : waiting f c = 1 := by omega
  -- it is nowhere else
  have hsplit := tally_update (fun _ (x : Face) => x.acceptQueue.count c) f l
    { f l with acceptQueue := [] }
  have hcount : (f l).acceptQueue.count c = rest.count c + 1 := by rw [hqueue, count_cons_self]
  rw [← waiting, ← waiting, count_nil] at hsplit
  refine h.requeue (h.queue l (ne_nil_of_mem hin)) (fun k hk => ?_) ?_ ?_
  · rw [hqueue, count_cons_of_ne hk.symm]
  · omega
  · rintro k (⟨-, hk⟩ | ⟨hkl, hk⟩)
    · have := count_pos_iff.2 hk
      omega
    · have hle := le_tally (fun _ (x : Face) => x.acceptQueue.count c)
        (update f l { f l with acceptQueue := [] }) k
      rw [← waiting, update_of_ne hkl] at hle
      have := count_pos_iff.2 hk
      omega

/-- A socket without a peer and without a queue is wiped with its last descriptor. -/
theorem wipe (hone : (f i).refs = 1) (hown : held i = 1) (hpeer : (f i).peer = none)
    (hqueue : (f i).acceptQueue = []) : Links (update f i {}) (update held i 0) := by
  have hrefs := h.refs i
  refine h.relabel (fun _ => rfl) hpeer.symm (fun hx => absurd rfl hx) hqueue.symm
    (fun hx => absurd rfl hx) ?_ (fun hx => absurd rfl hx) (h.not_queued (by omega))
  have : ({} : Face).refs = 0 := rfl
  omega

/-- Everything in use is held, or can be accepted from somebody who is. -/
theorem kept (hbusy : (f i).kind ≠ .free) :
    0 < held i ∨ ∃ l, i ∈ (f l).acceptQueue ∧ (f l).state = .listen ∧ 0 < held l := by
  have hqueued : ∀ k, (f k).kind ≠ .free → held k = 0 → ∃ l, k ∈ (f l).acceptQueue :=
    fun k hk hheld => by
    have hpos := h.used k hk
    rw [h.refs k, hheld, Nat.zero_add] at hpos
    obtain ⟨l, hl⟩ := exists_of_tally_pos hpos
    exact ⟨l, count_pos_iff.1 hl⟩
  refine or_iff_not_imp_left.2 fun hno => ?_
  obtain ⟨l, hl⟩ := hqueued i hbusy (by omega)
  have hlisten := h.queue l (ne_nil_of_mem hl)
  refine ⟨l, hl, hlisten, ?_⟩
  by_contra hheld
  have hbusyl : (f l).kind ≠ .free := fun hfree => by
    rw [h.blank l hfree] at hlisten
    cases hlisten
  obtain ⟨m, hm⟩ := hqueued l hbusyl (by omega)
  rcases (h.queued m l hm).2.2 with hx | hx
  · cases hlisten.symm.trans hx
  · cases hlisten.symm.trans hx

end Links
end IndexOS.Channels
