import IndexOS.Channel.Links

/-!
# Bytes and descriptors in step

`Sane` is what holds of one socket by itself: its ring has the bytes that were sent and not yet
read, and every descriptor in flight is for a byte that has not been read, of a message that has at
least that one. With `Links` and the ledger of descriptors it is kept by every lawful call.

* `World.Inv`, `World.Inv.step`;
* `carries` — the main theorem;
* `out_of_step` — what goes wrong otherwise.
-/

set_option autoImplicit false

namespace IndexOS.Channels

open Channel List RingBuffer
open Function (update update_comm update_eq_self update_idem update_of_ne update_self)
open Traces

structure Sane (c : Channel) (sent got : List UInt8) (ends : List Nat) : Prop where
  blank : c.kind = .free → c = {}
  tidy : c.rx.Tidy
  stream : got ++ c.rx.contents = sent
  total : c.rx.avail ≤ c.rxTotal
  length : c.scm.length = ends.length
  sorted : (c.scm.map Prod.snd).Pairwise (· ≤ ·)
  waits : ∀ x ∈ c.scm.zip ends, c.consumed ≤ x.1.2 ∧ x.1.2 < x.2 ∧ x.2 ≤ c.rxTotal
  plain : ∀ x ∈ c.scm, x.1.socket = none
  fresh : c.state ≠ .connected → c.state ≠ .peerGone → c.rx.avail = 0 ∧ c.scm = []

/-- What is in the socket: its bytes and descriptors. -/
def Channel.load (c : Channel) : RingBuffer UInt8 kChannelRxBytes × Nat × List (Fd × Nat) :=
  (c.rx, c.rxTotal, c.scm)

namespace Sane

variable {c d : Channel} {sent got : List UInt8} {ends : List Nat}

/-- Nothing is in the socket, or left of the connection before. -/
theorem of_empty (hblank : c.kind = .free → c = {}) (htidy : c.rx.Tidy) (havail : c.rx.avail = 0)
    (hscm : c.scm = []) : Sane c [] [] [] := by
  refine ⟨hblank, htidy, ?_, ?_, ?_, ?_, ?_, ?_, fun _ _ => ⟨havail, hscm⟩⟩
  · rw [nil_append, contents_eq_nil havail]
  · rw [havail]
    exact Nat.zero_le _
  all_goals simp [hscm]

variable (h : Sane c sent got ends)
include h

/-- The bytes and the descriptors are what they were. -/
theorem relabel (hkind : d.kind ≠ .free) (hload : d.load = c.load)
    (hfresh : d.state ≠ .connected → d.state ≠ .peerGone → c.rx.avail = 0 ∧ c.scm = []) :
    Sane d sent got ends := by
  simp only [load, Prod.mk.injEq] at hload
  obtain ⟨hrx, htotal, hscm⟩ := hload
  have hcons : d.consumed = c.consumed := by rw [consumed, consumed, hrx, htotal]
  refine ⟨fun hx => absurd hx hkind, hrx ▸ h.tidy, hrx ▸ h.stream, ?_, hscm ▸ h.length,
    hscm ▸ h.sorted, ?_, hscm ▸ h.plain, ?_⟩
  · rw [hrx, htotal]
    exact h.total
  · rw [hscm, hcons, htotal]
    exact h.waits
  · rw [hrx, hscm]
    exact hfresh

/-- Bytes are stored, with the descriptors of their message. -/
theorem send (hstate : c.state = .connected) (bytes : List UInt8) (moved : List Fd)
    (hplain : ∀ f ∈ moved, f.socket = none) (hsome : moved ≠ [] → bytes.take c.room ≠ [])
    (hrx : d.rx = c.rx.putAll (bytes.take c.room))
    (htotal : d.rxTotal = c.rxTotal + (bytes.take c.room).length)
    (hscm : d.scm = c.scm ++ moved.map fun f => (f, c.rxTotal)) (hface : d.toFace = c.toFace) :
    Sane d (sent ++ bytes.take c.room) got
      (ends ++ moved.map fun _ => c.rxTotal + (bytes.take c.room).length) := by
  have hroom : c.rx.avail + (bytes.take c.room).length ≤ kChannelRxBytes := by
    have := h.tidy.avail_le
    rw [length_take, room]
    omega
  obtain ⟨htidy, hcontents⟩ := putAll_spec _ h.tidy hroom
  have havail := avail_putAll (bytes.take c.room) c.rx
  have htot := h.total
  have hcons : d.consumed = c.consumed := by
    rw [consumed, consumed, hrx, htotal]
    omega
  have hle : c.consumed ≤ c.rxTotal := Nat.sub_le ..
  have hsc : d.state = .connected := by rw [hface, hstate]
  refine ⟨fun hx => ?_, hrx ▸ htidy, ?_, ?_, ?_, ?_, ?_, ?_, fun hx => absurd hsc hx⟩
  · rw [hface] at hx
    rw [h.blank hx] at hstate
    cases hstate
  · rw [hrx, hcontents, ← append_assoc, h.stream]
  · rw [hrx, htotal]
    omega
  · rw [hscm, length_append, length_append, h.length, length_map, length_map]
  · rw [hscm, map_append, pairwise_append]
    refine ⟨h.sorted, ?_, ?_⟩
    · rw [map_map]
      exact pairwise_map.2 (pairwise_of_forall fun _ _ => Nat.le_refl _)
    · intro a ha b hb
      obtain ⟨x, hx, rfl⟩ := mem_map.1 ha
      obtain ⟨y, hy, rfl⟩ := mem_map.1 hb
      obtain ⟨g, -, rfl⟩ := mem_map.1 hy
      rw [← map_fst_zip h.length.le] at hx
      obtain ⟨z, hz, rfl⟩ := mem_map.1 hx
      have := h.waits z hz
      omega
  · rw [hscm, zip_append h.length, zip_map']
    intro x hx
    rcases mem_append.1 hx with hx | hx
    · have := h.waits x hx
      omega
    · obtain ⟨g, hg, rfl⟩ := mem_map.1 hx
      have := length_pos_iff.2 (hsome (ne_nil_of_mem hg))
      dsimp only
      omega
  · rw [hscm]
    intro x hx
    rcases mem_append.1 hx with hx | hx
    · exact h.plain x hx
    · obtain ⟨g, hg, rfl⟩ := mem_map.1 hx
      exact hplain g hg

/-- Bytes are read, and the descriptors that ride with them taken. -/
theorem recv {n k usable : Nat} (hn : n ≤ c.rx.avail) (hu : n ≤ usable)
    (hrest : ∀ x ∈ c.scm.drop k, c.consumed + n ≤ x.2) (hrx : d.rx = (c.rx.takeN n).2)
    (htotal : d.rxTotal = c.rxTotal) (hscm : d.scm = c.scm.drop k) (hface : d.toFace = c.toFace)
    (hkind : c.kind ≠ .free) : Sane d sent (got ++ (c.rx.takeN n).1.take usable) (ends.drop k) ∧
      d.consumed = c.consumed + n := by
  obtain ⟨htidy, hlength, hcontents⟩ := takeN_spec n h.tidy hn
  have hall : (c.rx.takeN n).1.take usable = (c.rx.takeN n).1 := take_of_length_le (by omega)
  have havail : (c.rx.takeN n).2.avail + n = c.rx.avail := by
    have := congrArg List.length hcontents
    rw [length_append, length_contents, length_contents] at this
    omega
  have htot := h.total
  have hcons : d.consumed = c.consumed + n := by
    rw [consumed, consumed, hrx]
    omega
  refine ⟨⟨fun hx => absurd (hface ▸ hx) hkind, hrx ▸ htidy, ?_, ?_, ?_, ?_, ?_, ?_,
    fun hx hy => ?_⟩, hcons⟩
  · rw [hrx, hall, append_assoc, ← hcontents, h.stream]
  · rw [hrx]
    omega
  · rw [hscm, length_drop, length_drop, h.length]
  · rw [hscm, map_drop]
    exact h.sorted.sublist (drop_sublist ..)
  · intro x hx
    rw [hscm, zip, ← drop_zipWith] at hx
    have hold := h.waits x (mem_of_mem_drop hx)
    rw [drop_zipWith] at hx
    have hpos := hrest x.1 (of_mem_zip hx).1
    rw [hcons, htotal]
    exact ⟨hpos, hold.2⟩
  · rw [hscm]
    exact fun x hx => h.plain x (mem_of_mem_drop hx)
  · obtain ⟨havail0, hscm0⟩ := h.fresh (by rw [← hface]; exact hx) (by rw [← hface]; exact hy)
    rw [hrx, hscm, hscm0]
    exact ⟨by omega, drop_nil⟩

end Sane

open World

namespace World

def faces (w : World) (i : Slot) : Face := (w.chans i).toFace

/-- Every socket is sane, and no descriptor is lost or there twice. -/
structure Books (w : World) : Prop where
  sane : ∀ i, Sane (w.chans i) (w.sent i) (w.got i) (w.ends i)
  once : ∀ f, w.took.count f = w.installed.count f + w.released.count f + w.flying f

structure Inv (w : World) : Prop where
  links : Links w.faces w.held
  books : Books w

variable {w w' : World} {i p : Slot} {d : Channel}

/-- What is written twice has the second value. -/
theorem update_twice {f : Slot → Face} {a b : Slot} (h : a ≠ b) (x y z : Face) :
    update (update (update f b x) a y) b z =
      update (update f b z) a y := by
  rw [update_comm h, update_idem]

theorem modify_self (g : Channel → Channel) : (w.modify i g).chans i = g (w.chans i) :=
    update_self ..

theorem modify_of_ne (g : Channel → Channel) (h : p ≠ i) : (w.modify i g).chans p = w.chans p :=
  update_of_ne h _ _

theorem faces_of_update (h : w'.chans = update w.chans i d) :
    w'.faces = update w.faces i d.toFace := by
  funext j
  rw [faces, h]
  rcases eq_or_ne j i with rfl | hj
  · rw [update_self, update_self]
  · rw [update_of_ne hj, update_of_ne hj, faces]

theorem faces_modify (w : World) (i : Slot) (g : Channel → Channel) :
    (w.modify i g).faces = update w.faces i (g (w.chans i)).toFace := faces_of_update rfl

theorem faces_of_keep (h : w'.chans = update w.chans i d) (hface : d.toFace = w.faces i) :
    w'.faces = w.faces := by
  rw [faces_of_update h, hface, update_eq_self]

/-- One socket changes. -/
theorem Books.change (h : Books w) (hchans : w'.chans = update w.chans i d)
    (hghost : ∀ j, j ≠ i → w'.sent j = w.sent j ∧ w'.got j = w.got j ∧ w'.ends j = w.ends j)
    (hsane : Sane d (w'.sent i) (w'.got i) (w'.ends i))
    (hledger : ∀ f, w'.took.count f + (w.installed.count f + w.released.count f +
        ((w.chans i).scm.map Prod.fst).count f) =
      w.took.count f +
        (w'.installed.count f + w'.released.count f + (d.scm.map Prod.fst).count f)) : Books
        w' := by
  refine ⟨fun j => ?_, fun f => ?_⟩
  · rw [hchans]
    rcases eq_or_ne j i with rfl | hj
    · rw [update_self]
      exact hsane
    · obtain ⟨hsent, hgot, hends⟩ := hghost j hj
      rw [update_of_ne hj, hsent, hgot, hends]
      exact h.sane j
  · have hfly := tally_update (fun _ (c : Channel) => (c.scm.map Prod.fst).count f) w.chans i d
    rw [← hchans, ← flying, ← flying] at hfly
    have := h.once f
    have := hledger f
    omega

/-- What a socket has to do with the others changes, and nothing else. -/
theorem Books.relabel (h : Books w) (g : Channel → Channel) (hkind : (g (w.chans i)).kind ≠ .free)
    (hload : (g (w.chans i)).load = (w.chans i).load)
    (hfresh : (g (w.chans i)).state ≠ .connected → (g (w.chans i)).state ≠ .peerGone →
      (w.chans i).rx.avail = 0 ∧ (w.chans i).scm = []) : Books (w.modify i g) := by
  have hscm : (g (w.chans i)).scm = (w.chans i).scm := congrArg (·.2.2) hload
  refine h.change rfl (fun _ _ => ⟨rfl, rfl, rfl⟩) ((h.sane i).relabel hkind hload hfresh)
    fun f => ?_
  rw [hscm]
  rfl

theorem Inv.busy (h : Inv w) (hown : 0 < w.held i) : (w.chans i).kind ≠ .free := h.links.busy hown

/-- A call that only says something else about the socket. -/
theorem Inv.restate (h : Inv w) (hown : 0 < w.held i) {s : State} {g : Channel → Channel}
    (hg : (g (w.chans i)).toFace = { (w.chans i).toFace with state := s })
    (hload : (g (w.chans i)).load = (w.chans i).load)
    (hstate : (w.chans i).state = .closed ∨ (w.chans i).state = .bound) : Inv (w.modify i g) := by
  have hbusy := h.busy hown
  have hpeer : (w.faces i).peer = none := by
    by_contra hne
    obtain ⟨p, hp⟩ := Option.ne_none_iff_exists'.1 hne
    have hconn := (h.links.peer i p hp).2.2
    rcases hstate with hx | hx <;> cases hx.symm.trans hconn
  have hqueue : (w.faces i).acceptQueue = [] := by
    by_contra hne
    have hlisten := h.links.queue i hne
    rcases hstate with hx | hx <;> cases hx.symm.trans hlisten
  have hkind : (g (w.chans i)).kind = (w.chans i).kind := by rw [hg]
  refine ⟨?_, h.books.relabel g (hkind ▸ hbusy) hload fun _ _ => ?_⟩
  · rw [faces_modify, hg]
    have hlinks := h.links.relabel (x := { (w.chans i).toFace with state := s })
      (fun hx => absurd hx hbusy) rfl (fun hne => absurd hpeer hne) rfl
      (fun hne => absurd hqueue hne)
      (h.links.refs i) (h.links.used i) (h.links.not_queued hown)
    rw [update_eq_self] at hlinks
    exact hlinks
  · refine (h.books.sane i).fresh ?_ ?_ <;> rcases hstate with hx | hx <;> rw [hx] <;> decide

theorem Books.allocate (h : Books w) (hfree : (w.chans i).kind = .free) {c : Channel}
    (hkind : c.kind ≠ .free)
    (hrx : c.rx = { buf := fun _ => 0 }) (hscm : c.scm = []) (n : Nat) :
    Books (w.allocate i c n) := by
  refine h.change rfl (fun j hj => ?_) ?_ fun f => ?_
  · exact ⟨update_of_ne hj _ _, update_of_ne hj _ _, update_of_ne hj _ _⟩
  · simp only [World.allocate, afresh, update_self]
    exact Sane.of_empty (fun hx => absurd hx hkind) (hrx ▸ tidy_empty _ (by decide))
      (by rw [hrx]) hscm
  · rw [hscm, (h.sane i).blank hfree]
    rfl

/-! ## Closing -/

theorem Books.notifyPeer (h : Books w) (i : Slot) : Books (w.notifyPeer i) := by
  rw [World.notifyPeer]
  split
  · exact h
  split
  · exact h
  next hbusy => exact h.relabel _ hbusy rfl fun _ hx => absurd rfl hx

/-- Nothing happens to sockets when a descriptor for something else is released. -/
theorem foldl_plain {α : Type} {l : List α} {g : World → α → World} (hg : ∀ x ∈ l, ∀ w, g w x = w)
    (w : World) : l.foldl g w = w := by
  induction l with
  | nil => rfl
  | cons x rest ih =>
    rw [foldl_cons, hg x mem_cons_self]
    exact ih fun y hy => hg y (mem_cons_of_mem _ hy)

theorem close_of_many (hbusy : (w.chans i).kind ≠ .free) (hmany : 1 < (w.chans i).refs) :
    w.close i = { w.modify i fun c => { c with refs := c.refs - 1 } with
      held := update w.held i (w.held i - 1) } := by
  have hunfold : incClose kMaxChannels w i = incClose (15 + 1) w i := rfl
  rw [close, hunfold, incClose, if_neg hbusy, if_pos (by omega)]

theorem told_released (w : World) (i : Slot) : (w.told i).released = w.released := by
  rw [told, notifyPeer]
  split
  · rfl
  · split <;> rfl

/-- What the closing of a socket does not write. -/
theorem told_keeps {α : Type} (f : Channel → α) (hrefs : ∀ c, f { c with refs := 0 } = f c)
    (hgone : ∀ c, f { c with state := .peerGone, peer := none } = f c) (w : World) (i j : Slot) :
    f ((w.told i).chans j) = f (w.chans j) := by
  have hmodify : ∀ (w : World) (i : Slot) (g : Channel → Channel), (∀ c, f (g c) = f c) →
      f ((w.modify i g).chans j) = f (w.chans j) := fun w i g hg => by
    rcases eq_or_ne j i with rfl | hj
    · rw [modify_self, hg]
    · rw [modify_of_ne _ hj]
  rw [told, notifyPeer]
  split
  · exact hmodify w i _ hrefs
  split
  · exact hmodify w i _ hrefs
  · exact (hmodify _ _ _ hgone).trans (hmodify w i _ hrefs)

theorem told_scm (w : World) (i : Slot) : ((w.told i).chans i).scm = (w.chans i).scm :=
  told_keeps scm (fun _ => rfl) (fun _ => rfl) w i i

theorem close_of_last (hbusy : (w.chans i).kind ≠ .free) (hlast : (w.chans i).refs ≤ 1)
    (hplain : ∀ x ∈ (w.chans i).scm, x.1.socket = none) :
    w.close i = { ((w.told i).afresh i).modify i fun _ => {} with
      held := update w.held i (w.held i - 1)
      released := w.released ++ (w.chans i).scm.map Prod.fst } := by
  have hunfold : incClose kMaxChannels w i = incClose (15 + 1) w i := rfl
  rw [close, hunfold, incClose, if_neg hbusy, if_neg (by omega)]
  dsimp only
  rw [told_scm, foldl_plain, told_released]
  intro x hx w
  have hx' := hplain x hx
  split
  next j hj =>
    rw [hj] at hx'
    exact absurd hx' (by simp [Fd.socket])
  · rfl

theorem Inv.close (h : Inv w) (hown : 0 < w.held i)
    (hqueue : (w.chans i).refs = 1 → (w.chans i).acceptQueue = []) : Inv (w.close i) := by
  have hbusy := h.busy hown
  have hrefs := h.links.refs i
  change (w.chans i).refs = _ at hrefs
  by_cases hmany : 1 < (w.chans i).refs
  · rw [close_of_many hbusy hmany]
    have hbooks := h.books.relabel (fun c => { c with refs := c.refs - 1 }) hbusy rfl
      (h.books.sane i).fresh
    refine ⟨?_, hbooks.sane, hbooks.once⟩
    rw [faces_of_update rfl]
    exact h.links.relabel (fun hx => absurd hx hbusy) rfl
      (fun hne => by
        obtain ⟨p, hp⟩ := Option.ne_none_iff_exists'.1 hne
        exact (h.links.peer i p hp).2.2) rfl (h.links.queue i) (by dsimp only; omega)
          (fun _ => by dsimp only; omega)
      (h.links.not_queued hown)
  · have hone : (w.chans i).refs = 1 := by omega
    have hplain := (h.books.sane i).plain
    have hreleased := told_released w i
    have hbooks : Books (w.told i) := by
      have hzero : Books (w.modify i fun c => { c with refs := 0 }) :=
        h.books.relabel _ hbusy rfl (h.books.sane i).fresh
      exact hzero.notifyPeer i
    have hempty := hqueue hone
    have hheld : w.held i - 1 = 0 ∧ w.held i = 1 := by omega
    rw [close_of_last hbusy (by omega) hplain, hheld.1]
    refine ⟨?_, ?_⟩
    · rw [faces_of_update (w := w.told i) rfl]
      cases hpeer : (w.chans i).peer with
      | none =>
        have htold : (w.told i).faces = update w.faces i { w.faces i with refs := 0 } := by
          rw [told, notifyPeer, modify_self, hpeer]
          exact faces_modify ..
        rw [htold, update_idem]
        exact h.links.wipe hone hheld.2 hpeer hempty
      | some p =>
        obtain ⟨-, hip, -⟩ := h.links.peer i p hpeer
        have hbusyp : (w.chans p).kind ≠ .free := fun hfree => by
          have hback := (h.links.peer i p hpeer).1
          rw [h.links.blank p hfree] at hback
          cases hback
        have htold : (w.told i).faces = update (update w.faces i { w.faces i with refs := 0 }) p
            { w.faces p with state := .peerGone, peer := none } := by
          rw [told, notifyPeer, modify_self, hpeer]
          dsimp only
          rw [modify_of_ne _ hip.symm, if_neg hbusyp, faces_modify, modify_of_ne _ hip.symm,
            faces_modify]
          rfl
        have hpart := h.links.part hpeer
        have hi : update (update w.faces i { w.faces i with peer := none }) p
            { w.faces p with state := .peerGone, peer := none } i = { w.faces i with peer :=
              none } := by
          rw [update_of_ne hip, update_self]
        have hwipe := hpart.wipe (by rw [hi]; exact hone) hheld.2 (by rw [hi])
          (by rw [hi]; exact hempty)
        rw [htold, update_comm hip, update_idem]
        rw [update_comm hip, update_idem] at hwipe
        exact hwipe
    · refine hbooks.change rfl (fun j hj => ?_) ?_ fun f => ?_
      · exact ⟨update_of_ne hj _ _, update_of_ne hj _ _, update_of_ne hj _ _⟩
      · simp only [modify, afresh, update_self]
        exact Sane.of_empty (fun _ => rfl) (tidy_empty _ (by decide)) rfl rfl
      · simp only [modify, afresh, told_scm, hreleased, count_append, map_nil, count_nil]
        omega

theorem Inv.close_queue (h : Inv w) (hown : 0 < w.held i) {j : Slot} (hj : j ≠ i) :
    ((w.close i).chans j).acceptQueue = (w.chans j).acceptQueue := by
  by_cases hmany : 1 < (w.chans i).refs
  · rw [close_of_many (h.busy hown) hmany]
    rw [modify_of_ne _ hj]
  · rw [close_of_last (h.busy hown) (by omega) (h.books.sane i).plain]
    rw [modify_of_ne _ hj]
    exact told_keeps (·.acceptQueue) (fun _ => rfl) (fun _ => rfl) w i j

/-! ## Connections -/

theorem Inv.socket (h : Inv w) (number : Bool) : Inv (w.socket number).1 := by
  rw [World.socket]
  split
  · exact h
  next i hfind =>
    have hfree : (w.chans i).kind = .free := by simpa using find?_some hfind
    have hnew : Inv (w.allocate i { kind := .stream, refs := 1 } 1) := by
      refine ⟨?_, h.books.allocate hfree (by simp) rfl rfl 1⟩
      rw [faces_of_update rfl]
      exact h.links.allocate hfree .closed
    split
    · exact hnew
    · refine hnew.close ?_ fun _ => ?_
      · simp only [allocate, update_self]
        exact Nat.one_pos
      · simp only [allocate, update_self]

theorem Inv.socketpair (h : Inv w) (numbers : Bool) : Inv (w.socketpair numbers).1 := by
  rw [World.socketpair]
  split
  · exact h
  next a ha =>
  split
  · exact h
  next b hb =>
    have hfreea : (w.chans a).kind = .free := by simpa using find?_some ha
    have hfreeb : (w.chans b).kind = .free ∧ b ≠ a := by simpa using find?_some hb
    set w₁ := w.allocate a
      { kind := .stream, state := .connected, refs := 1, peer := some b } 1 with hw₁
    set w₂ := w₁.allocate b
      { kind := .stream, state := .connected, refs := 1, peer := some a } 1 with hw₂
    have hnew : Inv w₂ := by
      have hbooks : Books w₁ := h.books.allocate hfreea (by simp) rfl rfl 1
      have hb₁ : (w₁.chans b).kind = .free := by
        rw [hw₁, allocate]
        simp only [update_of_ne hfreeb.2]
        exact hfreeb.1
      refine ⟨?_, hbooks.allocate hb₁ (by simp) rfl rfl 1⟩
      have hlinks := ((h.links.allocate hfreea .connected).allocate
        (by rw [update_of_ne hfreeb.2]; exact hfreeb.1) .connected).link hfreeb.2.symm
        (by rw [update_of_ne hfreeb.2.symm, update_self]) (by rw [update_self])
        (by rw [update_of_ne hfreeb.2.symm, update_self]) (by rw [update_self])
        (by rw [update_of_ne hfreeb.2.symm]; simp)
        (by simp)
      rw [update_of_ne hfreeb.2.symm, update_self, update_self, update_twice hfreeb.2.symm,
        update_twice hfreeb.2] at hlinks
      rw [faces_of_update rfl, faces_of_update rfl]
      exact hlinks
    split
    · exact hnew
    · have hheld : w₂.held a = 1 ∧ w₂.held b = 1 :=
        ⟨(update_of_ne hfreeb.2.symm _ _).trans (update_self ..), update_self ..⟩
      have hempty : (w₂.chans a).acceptQueue = [] ∧ (w₂.chans b).acceptQueue = [] := by
        have hb₂ : w₂.chans
          b = { kind := .stream, state := .connected, refs := 1, peer := some a } :=
          update_self ..
        have ha₂ : w₂.chans
          a = { kind := .stream, state := .connected, refs := 1, peer := some b } :=
          (update_of_ne hfreeb.2.symm _ _).trans (update_self ..)
        rw [ha₂, hb₂]
        exact ⟨rfl, rfl⟩
      have hfirst := hnew.close (by omega) fun _ => hempty.1
      have hstill : (w₂.close a).held b = 1 := (update_of_ne hfreeb.2 _ _).trans hheld.2
      refine hfirst.close (by omega) fun _ => ?_
      rw [hnew.close_queue (by omega) hfreeb.2]
      exact hempty.2

section
variable (h : Inv w) (hown : 0 < w.held i)
include h hown

theorem Inv.bind (path : List UInt8) : Inv (w.bind i path).1 := by
  rw [World.bind]
  split
  · exact h
  next hcond =>
    rw [not_or, not_or, not_not] at hcond
    exact h.restate hown (g := fun c => { c with path, state := .bound }) rfl rfl hcond.2.1

theorem Inv.listen (backlog : Nat) : Inv (w.listen i backlog).1 := by
  rw [World.listen]
  split
  · exact h
  next hcond =>
    simp only [not_or, not_not] at hcond
    exact h.restate hown (g := fun c => { c with state := .listen, backlog := _ }) rfl rfl
      (Or.inr hcond.2.1)

theorem Inv.connect (path : List UInt8) (hlisten : (w.chans i).state ≠ .listen)
    (hdrained : (w.chans i).state = .peerGone → (w.chans i).rx.avail = 0 ∧ (w.chans i).scm = []) :
    Inv (w.connect i path).1 := by
  rw [World.connect]
  split
  · exact h
  next hcond =>
  simp only [not_or] at hcond
  split
  · exact h
  next l hl =>
  split
  · exact h
  split
  · exact h
  next c hc =>
  have hfree : (w.chans c).kind = .free := by simpa using find?_some hc
  have hserver : (w.chans l).kind = .stream ∧ (w.chans l).state = .listen ∧
    (w.chans l).path = path := by
    rw [findBound] at hl
    split at hl
    · cases hl
    · simpa using find?_some hl
  have hbusy := h.busy hown
  have hic : i ≠ c := by
    rintro rfl
    exact hbusy hfree
  have hil : i ≠ l := by
    rintro rfl
    exact hlisten hserver.2.1
  have hcl : c ≠ l := by
    rintro rfl
    cases hserver.1.symm.trans hfree
  have hempty : (w.chans i).rx.avail = 0 ∧ (w.chans i).scm = [] := by
    by_cases hgone : (w.chans i).state = .peerGone
    · exact hdrained hgone
    · exact (h.books.sane i).fresh hcond.2 hgone
  dsimp only
  set child : Channel :=
    { kind := .stream, state := .connected, refs := 1, peer := some i, path := (w.chans l).path }
    with hchild
  set w₁ := w.allocate c child 0 with hw₁
  have hchans : w₁.chans = update w.chans c child := rfl
  set w₂ := (w₁.afresh i).modify i fun x => { x with state := .connected, peer := some c } with hw₂
  have hi₁ : w₁.chans i = w.chans i := update_of_ne hic _ _
  have hl₂ : w₂.chans l = w.chans l :=
    (modify_of_ne _ hil.symm).trans (update_of_ne hcl.symm _ _)
  have hbooks₁ : Books w₁ := h.books.allocate hfree (by simp [hchild]) rfl rfl 0
  have hbooks₂ : Books w₂ := by
    refine hbooks₁.change rfl (fun j hj => ?_) ?_ fun f => rfl
    · exact ⟨update_of_ne hj _ _, update_of_ne hj _ _, update_of_ne hj _ _⟩
    · rw [← hi₁] at hempty hbusy
      simp only [hw₂, modify, afresh, update_self]
      exact Sane.of_empty (fun hx => absurd hx hbusy) (hbooks₁.sane i).tidy hempty.1 hempty.2
  refine ⟨?_, hbooks₂.relabel _ ?_ rfl ?_⟩
  · have halloc := h.links.allocate hfree .connected
    have hlink := halloc.link hic
      (by rw [update_of_ne hic]; exact h.links.peer_none hcond.2) (by rw [update_self])
      (by rw [update_of_ne hic]; exact h.links.queue_nil hlisten) (by rw [update_self])
      (by rw [update_of_ne hic]; exact hbusy) (by simp)
    rw [update_of_ne hic, update_self, update_twice hic] at hlink
    have hfaces : w₂.faces = update (update w.faces c child.toFace) i
        { w.faces i with state := .connected, peer := some c } := by
      rw [faces_modify]
      change update w₁.faces i { (w₁.chans i).toFace with state := .connected, peer := some c } = _
      rw [faces_of_update hchans, hi₁]
      rfl
    have henqueue := hlink.enqueue (l := l) (c := c) ?_ ?_ ?_ ?_
    · rw [faces_modify, hfaces, hl₂]
      rw [update_idem, update_of_ne hil.symm, update_of_ne hcl.symm] at henqueue
      exact henqueue
    · rw [update_of_ne hil.symm, update_of_ne hcl.symm]
      exact hserver.2.1
    · exact update_self ..
    · rw [update_of_ne hic.symm, update_self]
    · rw [update_of_ne hic.symm, update_self]
  · rw [hl₂, hserver.1]
    simp
  · rw [hl₂]
    exact (h.books.sane l).fresh

end

theorem Inv.accept (h : Inv w) (i : Slot) (number : Bool) : Inv (w.accept i number).1 := by
  rw [World.accept]
  split
  · exact h
  next hcond =>
  simp only [not_or, not_not] at hcond
  split
  · exact h
  next c rest hqueue =>
    have hin : c ∈ (w.faces i).acceptQueue := by
      rw [faces, hqueue]
      exact mem_cons_self
    obtain ⟨-, -, hstate⟩ := h.links.queued i c hin
    have hci : c ≠ i := by
      rintro rfl
      rcases hstate with hx | hx <;> cases hcond.2.symm.trans hx
    set w₁ := w.modify i fun x => { x with acceptQueue := rest } with hw₁
    have hbooks : Books w₁ := h.books.relabel _ (by rw [hcond.1]; simp) rfl (h.books.sane i).fresh
    have hnew : Inv { w₁ with held := update w₁.held c 1 } := by
      refine ⟨?_, hbooks.sane, hbooks.once⟩
      have hfaces : faces { w₁ with held := update w₁.held c 1 } =
          update w.faces i { w.faces i with acceptQueue := rest } :=
        faces_modify w i fun x => { x with acceptQueue := rest }
      rw [hfaces]
      exact h.links.dequeue hqueue
    split
    · exact hnew
    · refine hnew.close ?_ fun _ => ?_
      · simp only [update_self]
        exact Nat.one_pos
      · have hc₁ : w₁.chans c = w.chans c := modify_of_ne _ hci
        refine hnew.links.queue_nil ?_
        change (w₁.chans c).state ≠ _
        rw [hc₁]
        rcases hstate with hx | hx
        · exact fun hy => nomatch hx.symm.trans hy
        · exact fun hy => nomatch hx.symm.trans hy

/-! ## Bytes and descriptors -/

theorem sink_ok (h : sink w.chans i = .ok p) :
    (w.chans i).state = .connected ∧ (w.chans i).peer = some p := by
  rw [sink] at h
  split at h
  · cases h
  split at h
  · cases h
  split at h
  · cases h
  next hstate =>
  split at h
  · cases h
  next q hq =>
  split at h
  · cases h
  · exact ⟨not_not.1 hstate, by rw [hq, Except.ok.inj h]⟩

theorem sink_error {e : Int} (h : sink w.chans i = .error e) : e < 0 := by
  rw [sink] at h
  iterate 5
    split at h
    · rw [← Except.error.inj h]; decide
  cases h

theorem sink_congr {t t' : Slot → Channel} (h : ∀ j, (t' j).toFace = (t j).toFace) (i : Slot) :
    sink t' i = sink t i := by simp only [sink, h]

theorem Inv.sink_connected (h : Inv w) (hs : sink w.chans i = .ok p) :
    (w.chans p).state = .connected := by
  obtain ⟨hback, -, -⟩ := h.links.peer i p (sink_ok hs).2
  exact (h.links.peer p i hback).2.2

theorem Inv.incSend (h : Inv w) (i : Slot) (bytes : List UInt8) : Inv (w.incSend i bytes).1 := by
  rw [World.incSend]
  cases hs : sink w.chans i with
  | error e => exact h
  | ok p =>
    have hsend := (h.books.sane p).send (h.sink_connected hs) bytes [] (nofun)
      (fun hne => absurd rfl hne) (d := { w.chans p with
        rx := (w.chans p).rx.putAll (bytes.take (w.chans p).room)
        rxTotal := (w.chans p).rxTotal + (bytes.take (w.chans p).room).length }) rfl rfl
          (by simp) rfl
    rw [map_nil, append_nil] at hsend
    refine ⟨?_, h.books.change rfl (fun j hj => ⟨update_of_ne hj _ _, rfl, rfl⟩) ?_ fun f => rfl⟩
    · have hfaces : faces { w.modify p fun c => { c with
          rx := c.rx.putAll (bytes.take (w.chans p).room)
          rxTotal := c.rxTotal + (bytes.take (w.chans p).room).length } with
          sent := update w.sent p (w.sent p ++ bytes.take (w.chans p).room) } = w.faces :=
        faces_of_keep rfl rfl
      rw [hfaces]
      exact h.links
    · simp only [update_self]
      exact hsend

theorem refFdBackend_plain {f : Fd} (hf : f.socket = none) (w : World) : w.refFdBackend f = w := by
  cases f with
  | unixSock j => exact absurd hf (by simp [Fd.socket])
  | other n => rfl

theorem releaseFdBackend_plain {f : Fd} (hf : f.socket = none) (w : World) :
    w.releaseFdBackend f = w := by
  cases f with
  | unixSock j => exact absurd hf (by simp [Fd.socket])
  | other n => rfl

section Sendmsg

variable {iov : Option (List Piece)} {control : Option (List (Option Fd))}

/-- What a `sendmsg` comes to that passes no socket and cannot send. -/
theorem sendmsg_of_error (hplain : ∀ f ∈ named control, f.socket = none) {e : Int}
    (hs : sink w.chans i = .error e) :
    w.sendmsg i iov control = ({ w with
      took := w.took ++ (named control).take kChannelScmMax
      released := w.released ++ (named control).take kChannelScmMax }, some e) := by
  have hpassed : ∀ f ∈ (named control).take kChannelScmMax, f.socket = none := fun f hf =>
    hplain f (mem_of_mem_take hf)
  simp only [sendmsg, incAttachFds, incSend, hs, drop_zero,
    foldl_plain fun f hf => refFdBackend_plain (hpassed f hf),
    foldl_plain fun f hf => releaseFdBackend_plain (hpassed f hf)]

/-- The descriptors of a message for which there is room. -/
def movedOf (w : World) (p : Slot) (control : Option (List (Option Fd))) : List Fd :=
  ((named control).take kChannelScmMax).take (kChannelScmMax - (w.chans p).scm.length)

/-- The socket that a message has been sent to. -/
def delivered (w : World) (p : Slot) (bytes : List UInt8) (moved : List Fd) : Channel :=
  { w.chans p with
    rx := (w.chans p).rx.putAll (bytes.take (w.chans p).room)
    rxTotal := (w.chans p).rxTotal + (bytes.take (w.chans p).room).length
    scm := (w.chans p).scm ++ moved.map fun f => (f, (w.chans p).rxTotal) }

theorem sendmsg_of_ok (hplain : ∀ f ∈ named control, f.socket = none)
    (hs : sink w.chans i = .ok p) : w.sendmsg i iov control = ({ w with
      chans := update w.chans p (w.delivered p (gather iov) (w.movedOf p control))
      took := w.took ++ (named control).take kChannelScmMax
      released := w.released ++ ((named control).take kChannelScmMax).drop
        (w.movedOf p control).length
      sent := update w.sent p (w.sent p ++ (gather iov).take (w.chans p).room)
      ends := update w.ends p (w.ends p ++ (w.movedOf p control).map fun _ =>
        (w.chans p).rxTotal + ((gather iov).take (w.chans p).room).length) },
      some (((gather iov).take (w.chans p).room).length : Int)) := by
  have hpassed : ∀ f ∈ (named control).take kChannelScmMax, f.socket = none := fun f hf =>
    hplain f (mem_of_mem_take hf)
  have hover : ∀ n, ∀ f ∈ ((named control).take kChannelScmMax).drop n, f.socket = none :=
    fun n f hf =>
    hpassed f (mem_of_mem_drop hf)
  have hs' : sink (update w.chans p { w.chans p with
      scm := (w.chans p).scm ++ (w.movedOf p control).map fun f => (f, (w.chans p).rxTotal) }) i =
        .ok p := by
    rw [sink_congr, hs]
    intro j
    rcases eq_or_ne j p with rfl | hj
    · rw [update_self]
    · rw [update_of_ne hj]
  rw [movedOf] at hs'
  simp only [sendmsg, incAttachFds, lastOf, incSend, hs, modify, hs', movedOf, delivered,
    foldl_plain fun f hf => refFdBackend_plain (hpassed f hf),
    foldl_plain fun f hf => releaseFdBackend_plain (hover _ f hf), update_self, update_idem,
    room]

theorem Inv.sendmsg (h : Inv w) (hlaw : w.Lawful (.sendmsg i iov control)) :
    Inv (w.sendmsg i iov control).1 := by
  obtain ⟨hplain, hcarry⟩ := hlaw
  cases hs : sink w.chans i with
  | error e =>
    rw [sendmsg_of_error hplain hs]
    refine ⟨h.links, h.books.sane, fun f => ?_⟩
    have honce := h.books.once f
    have hfly : flying { w with
        took := w.took ++ (named control).take kChannelScmMax
        released := w.released ++ (named control).take kChannelScmMax } f = w.flying f := rfl
    dsimp only at ⊢
    rw [count_append, count_append]
    omega
  | ok p =>
    obtain ⟨hstate, hpeer⟩ := sink_ok hs
    have hsome : w.movedOf p control ≠ [] → (gather iov).take (w.chans p).room ≠ [] := fun hne => by
      have hnamed : named control ≠ [] := by
        rintro hnil
        exact hne (by simp [movedOf, hnil])
      obtain ⟨hbytes, hroom⟩ := (hcarry hstate).2 hnamed
      have := hroom p hpeer
      rw [← length_pos_iff, length_take]
      have := length_pos_iff.2 hbytes
      omega
    have hsend := (h.books.sane p).send (h.sink_connected hs) (gather iov) (w.movedOf p control)
      (fun f hf => hplain f (mem_of_mem_take (mem_of_mem_take hf))) hsome
      (d := w.delivered p (gather iov) (w.movedOf p control)) rfl rfl rfl rfl
    rw [sendmsg_of_ok hplain hs]
    refine ⟨?_, h.books.change rfl
      (fun j hj => ⟨update_of_ne hj _ _, rfl, update_of_ne hj _ _⟩) ?_ fun f => ?_⟩
    · convert h.links using 1
      exact faces_of_keep rfl rfl
    · simp only [update_self]
      exact hsend
    · have hsplit := prefix_iff_eq_append.1
        ( take_prefix (kChannelScmMax - (w.chans p).scm.length)
          ((named control).take kChannelScmMax))
      have hcount := congrArg (count f) hsplit
      rw [← movedOf, count_append] at hcount
      simp only [delivered, map_append, map_map, count_append]
      have hmap : ((w.movedOf p control).map (Prod.fst ∘ fun g => (g, (w.chans p).rxTotal))) =
          w.movedOf p control := map_id _
      rw [hmap]
      omega

theorem sendmsg_answers (hlaw : w.Lawful (.sendmsg i iov control)) {r : Int}
    (hr : (w.sendmsg i iov control).2 = some r) :
    (r < 0 → (∀ j, ((w.sendmsg i iov control).1.chans j).scm = (w.chans j).scm) ∧
        (w.sendmsg i iov control).1.installed = w.installed) ∧
      (0 ≤ r → (w.sendmsg i iov control).1.took = w.took ++ named control) := by
  obtain ⟨hplain, hcarry⟩ := hlaw
  cases hs : sink w.chans i with
  | error e =>
    rw [sendmsg_of_error hplain hs] at hr ⊢
    have hneg := sink_error hs
    obtain rfl := Option.some.inj hr
    exact ⟨fun _ => ⟨fun _ => rfl, rfl⟩, fun hpos => absurd hneg (by omega)⟩
  | ok p =>
    rw [sendmsg_of_ok hplain hs] at hr ⊢
    obtain rfl := Option.some.inj hr
    refine ⟨fun hneg => absurd hneg (by omega), fun _ => ?_⟩
    rw [take_of_length_le (hcarry (sink_ok hs).1).1]

end Sendmsg

/-! ### Receiving -/

/-- In a queue in the order of the stream, the descriptors that are due come first. -/
theorem due_first {l : List (Fd × Nat)} {b : Nat} (h : (l.map Prod.snd).Pairwise (· ≤ ·)) :
    (l.takeWhile fun x => x.2 < b) = l.filter (fun x => x.2 < b) ∧
      ∀ x ∈ l.drop (l.filter fun x => x.2 < b).length, b ≤ x.2 := by
  induction l with
  | nil => exact ⟨rfl, nofun⟩
  | cons y rest ih =>
    rw [map_cons, pairwise_cons] at h
    obtain ⟨heq, hrest⟩ := ih h.2
    by_cases hy : y.2 < b
    · rw [takeWhile_cons_of_pos (by simpa using hy), filter_cons_of_pos (by simpa using hy), heq]
      exact ⟨rfl, fun x hx => hrest x (by simpa using hx)⟩
    · have hall : ∀ x ∈ y :: rest, b ≤ x.2 := fun x hx => by
        rcases mem_cons.1 hx with rfl | hx
        · omega
        · have := h.1 x.2 (mem_map_of_mem hx)
          omega
      have hnil : (y :: rest).filter (fun x => x.2 < b) = [] :=
        filter_eq_nil_iff.2 fun x hx => by simpa using hall x hx
      rw [hnil, takeWhile_cons_of_neg (by simpa using hy)]
      exact ⟨rfl, fun x hx => hall x (mem_of_mem_drop hx)⟩

/-- The socket after `n` bytes have been read. -/
def drained (w : World) (i : Slot) (n : Nat) : Channel :=
    { w.chans i with rx := ((w.chans i).rx.takeN n).2 }

theorem receive_eq {n usable room numbers : Nat}
    (hplain : ∀ x ∈ (w.chans i).scm, x.1.socket = none) :
    (w.incTryRecv i n usable).incTakeFds i room numbers = { w with
      chans := update w.chans i { w.drained i n with
        scm := (w.chans i).scm.drop (due (w.drained i n) room).length }
      installed := w.installed ++ ((due (w.drained i n) room).map Prod.fst).take numbers
      released := w.released ++ ((due (w.drained i n) room).map Prod.fst).drop numbers
      got := update w.got i (w.got i ++ ((w.chans i).rx.takeN n).1.take usable)
      ends := update w.ends i ((w.ends i).drop (due (w.drained i n) room).length) } := by
  have htaken : ∀ f ∈ (due (w.drained i n) room).map Prod.fst, f.socket = none := fun f hf => by
    obtain ⟨x, hx, rfl⟩ := mem_map.1 hf
    exact hplain x (mem_of_mem_take (takeWhile_subset _ hx))
  have hover : ∀ f ∈ ((due (w.drained i n) room).map Prod.fst).drop numbers, f.socket = none :=
    fun f hf =>
    htaken f (mem_of_mem_drop hf)
  have hnone : (((due (w.drained i n) room).map Prod.fst).take numbers).filterMap Fd.socket = [] :=
    filterMap_eq_nil_iff.2 fun f hf => htaken f (mem_of_mem_take hf)
  have hself : (w.incTryRecv i n usable).chans i = w.drained i n := update_self ..
  rw [incTakeFds, hself]
  rw [foldl_plain fun f hf => releaseFdBackend_plain (hover f hf), hnone]
  simp only [incTryRecv, modify, update_self, update_idem, length_map, count_nil,
    Nat.add_zero, drained]

/-- Bytes are read with all the descriptors that become due. -/
theorem Inv.receive (h : Inv w) (hbusy : (w.chans i).kind ≠ .free) {n usable room : Nat}
    (numbers : Nat) (hn : n ≤ (w.chans i).rx.avail) (hu : n ≤ usable)
    (hdue : ((w.chans i).scm.filter fun x => x.2 < (w.chans i).consumed + n).length ≤ room) :
    ∃ w', (w.incTryRecv i n usable).incTakeFds i room numbers = w' ∧ Inv w' ∧ w.InStep w' i room ∧
      (w'.chans i).state = (w.chans i).state ∧
      ((w.chans i).rx.avail ≤ n → w'.got i = w'.sent i) := by
  have hsane := h.books.sane i
  obtain ⟨heq, hrest⟩ := due_first hsane.sorted
  obtain ⟨-, hlength, hcontents⟩ := takeN_spec n hsane.tidy hn
  have hcons : (w.drained i n).consumed = (w.chans i).consumed + n :=
    (hsane.recv hn hu (by simp)
      (d := { w.drained i n with scm := (w.chans i).scm.drop (w.chans i).scm.length }) rfl rfl rfl
      rfl hbusy).2
  obtain ⟨taken, hdef⟩ : ∃ l, due (w.drained i n) room = l := ⟨_, rfl⟩
  have htaken : taken = (w.chans i).scm.filter fun x => x.2 < (w.chans i).consumed + n := by
    rw [← heq] at hdue ⊢
    rw [← hdef, due, hcons, ← take_takeWhile]
    exact take_of_length_le hdue
  have hkeep := hsane.recv hn hu (by rw [htaken]; exact hrest)
    (d := { w.drained i n with scm := (w.chans i).scm.drop taken.length }) rfl rfl rfl rfl hbusy
  have hrun : (w.incTryRecv i n usable).incTakeFds i room numbers = _ := receive_eq hsane.plain
  rw [hdef] at hrun
  refine ⟨_, hrun, ⟨?_, ?_⟩, ?_, ?_, fun hall => ?_⟩
  · convert h.links using 1
    exact faces_of_keep rfl rfl
  · refine h.books.change rfl
      (fun j hj => ⟨rfl, update_of_ne hj _ _, update_of_ne hj _ _⟩) ?_ fun f => ?_
    · simp only [update_self]
      exact hkeep.1
    · have hprefix : taken <+: (w.chans i).scm :=
        hdef ▸ ( takeWhile_prefix _).trans ( take_prefix ..)
      have hsplit := congrArg (fun l => (l.map Prod.fst).count f) (prefix_iff_eq_append.1 hprefix)
      have hown := congrArg (count f) (take_append_drop numbers (taken.map Prod.fst))
      simp only [map_append, count_append] at hsplit hown ⊢
      omega
  · intro m f pos last hm hlast
    have hlen : taken.length ≤ (w.chans i).scm.length := by
      rw [htaken]
      exact length_filter_le ..
    have hwaits := hsane.waits ((f, pos), last)
      (mem_of_getElem? (getElem?_zip_eq_some.2 ⟨hm, hlast⟩))
    simp only [update_self, length_drop]
    refine ⟨?_, fun _ _ => by omega⟩
    rintro - ⟨x, -, hx, hpos, -⟩
    by_contra hge
    have hmem : (f, pos) ∈ (w.chans i).scm.drop taken.length := by
      refine mem_of_getElem? (i := m - taken.length) ?_
      rw [getElem?_drop]
      have : taken.length + (m - taken.length) = m := by omega
      rw [this]
      exact hm
    rw [htaken] at hmem
    have := hrest _ hmem
    have := hkeep.2
    dsimp only at this
    omega
  · simp only [update_self]
    rfl
  · simp only [update_self]
    have hempty : ((w.chans i).rx.takeN n).2.contents = [] := by
      have := congrArg length hcontents
      rw [length_append, length_contents] at this
      exact length_eq_zero_iff.1 (by omega)
    have := hkeep.1.stream
    change _ ++ ((w.chans i).rx.takeN n).2.contents = _ at this
    rw [hempty, append_nil] at this
    exact this

/-- With no room for descriptors none is taken. -/
theorem incTakeFds_zero (w : World) (i : Slot) : w.incTakeFds i 0 0 = w := by
  simp [incTakeFds, due, modify]

theorem Inv.read (h : Inv w) (hown : 0 < w.held i) {len : Nat} (hlaw : w.Lawful (.read i len)) :
    Inv (w.read i len).1 ∧ (0 < len → (w.read i len).2 = some 0 → (w.read i len).1.AtEnd i) := by
  obtain ⟨hpos, hdue⟩ := hlaw
  have hnone : ((w.chans i).scm.filter fun x => x.2 < (w.chans i).consumed +
      min (len % 2 ^ 32) (w.chans i).rx.avail).length ≤ 0 := by
    rw [filter_eq_nil_iff.2 fun x hx => by simpa using hdue x hx, length_nil]
  obtain ⟨w', hw', hinv, -, -, hend⟩ :=
    h.receive (h.busy hown) 0 (Nat.min_le_right ..) (Nat.le_refl _) hnone
  rw [incTakeFds_zero] at hw'
  rw [World.read]
  split
  · exact ⟨h, nofun⟩
  split
  next hn =>
    rw [hw']
    refine ⟨hinv, fun _ hx => ?_⟩
    have hzero : ((min (len % 2 ^ 32) (w.chans i).rx.avail : Nat) : Int) = 0 := Option.some.inj hx
    omega
  next hn =>
    split
    next hgone =>
      refine ⟨h, fun hlen _ => ⟨hgone, ?_⟩⟩
      have hsane := h.books.sane i
      rw [← hsane.stream, contents_eq_nil (by omega), append_nil]
    · exact ⟨h, nofun⟩

theorem inStep_refl (w : World) (i : Slot) (room : Nat) : w.InStep w i room := by
  intro n f pos last _ _
  omega

theorem Inv.recvmsg (h : Inv w) (hown : 0 < w.held i) {iov : Option (List Space)}
    {control : Option Nat}
    {numbers : Nat} (hlaw : w.Lawful (.recvmsg i iov control numbers)) :
    Inv (w.recvmsg i iov control numbers).1 ∧
      (0 < ((iov.getD []).map Space.len).sum → (w.recvmsg i iov control numbers).2 = some 0 →
        (w.recvmsg i iov control numbers).1.AtEnd i) ∧
      w.InStep (w.recvmsg i iov control numbers).1 i (roomOf control) := by
  obtain ⟨hasked, husable, hroom⟩ := hlaw
  obtain ⟨w', hw', hinv, hstep, hstate, hend⟩ :=
    h.receive (h.busy hown) numbers (Nat.min_le_right ..) husable hroom
  rw [World.recvmsg]
  split
  · exact ⟨h, nofun, inStep_refl w i _⟩
  split
  · exact ⟨h, nofun, inStep_refl w i _⟩
  next hpark =>
    rw [hw']
    refine ⟨hinv, fun hpos hx => ?_, hstep⟩
    have hzero : min (wantOf iov) (w.chans i).rx.avail = 0 :=
      Int.natCast_eq_zero.1 (Option.some.inj hx)
    have hwant := hasked hpos
    refine ⟨?_, hend (by omega)⟩
    rw [hstate]
    by_contra hne
    exact hpark ⟨hwant, hzero, hne⟩

/-! ## Runs -/

theorem Inv.step (h : Inv w) {e : Call} (hlaw : w.Lawful e) : Inv (w.step e) := by
  rw [World.step, exec]
  by_cases hmay : w.may e = true
  · rw [if_pos hmay]
    have hown : ∀ i, e.slot = some i → 0 < w.held i := fun i hi => by
      rw [may, hi] at hmay
      simpa using hmay
    cases e with
    | socket number => exact h.socket number
    | socketpair numbers => exact h.socketpair numbers
    | bind i raw => exact h.bind (hown i rfl) _
    | listen i backlog => exact h.listen (hown i rfl) _
    | connect i raw => exact h.connect (hown i rfl) _ hlaw.1 hlaw.2
    | accept i number => exact h.accept i number
    | write i src => exact h.incSend i _
    | read i len => exact (h.read (hown i rfl) hlaw).1
    | sendmsg i iov control => exact h.sendmsg hlaw
    | recvmsg i iov control numbers => exact (h.recvmsg (hown i rfl) hlaw).1
    | close i => exact h.close (hown i rfl) hlaw
  · rw [if_neg hmay]
    exact h

theorem Inv.answers (h : Inv w) {e : Call} (hlaw : w.Lawful e) : w.Answers e := by
  by_cases hmay : w.may e = true
  · have hown : ∀ i, e.slot = some i → 0 < w.held i := fun i hi => by
      rw [may, hi] at hmay
      simpa using hmay
    have hexec : w.exec e = w.call e := by rw [exec, if_pos hmay]
    cases e with
    | read i len =>
      rw [Answers, World.step, hexec]
      exact (h.read (hown i rfl) hlaw).2
    | sendmsg i iov control =>
      rw [Answers, World.step, hexec]
      exact fun r hr => sendmsg_answers hlaw hr
    | recvmsg i iov control numbers =>
      rw [Answers, World.step, hexec]
      exact (h.recvmsg (hown i rfl) hlaw).2
    | _ => trivial
  · have hexec : w.exec e = (w, none) := by rw [exec, if_neg hmay]
    cases e with
    | read i len =>
      rw [Answers, hexec]
      exact nofun
    | sendmsg i iov control =>
      rw [Answers, hexec]
      exact nofun
    | recvmsg i iov control numbers =>
      rw [Answers, World.step, hexec]
      exact ⟨nofun, inStep_refl w i _⟩
    | _ => trivial

theorem empty_inv : Inv {} where
  links := {
    blank := fun _ _ => rfl
    peer := fun i j hx => absurd hx (by simp [faces])
    refs := fun i => by
      have hnone : waiting (faces {}) i = 0 := tally_eq_zero fun _ => rfl
      rw [hnone]
      rfl
    used := fun i hx => absurd rfl hx
    queue := fun l hx => absurd rfl hx
    queued := fun l i hx => absurd hx (by simp [faces]) }
  books := {
    sane := fun _ => Sane.of_empty (fun _ => rfl) (tidy_empty _ (by decide)) rfl rfl
    once := fun f => by
      have hnone : flying {} f = 0 := tally_eq_zero fun _ => rfl
      rw [hnone]
      rfl }

theorem Inv.sound (h : Inv w) : Sound w where
  symmetric i j hx := (h.links.peer i j hx).1
  bytes i := ⟨_, (h.books.sane i).stream⟩
  once := h.books.once
  kept i hx := by
    refine h.links.kept fun hfree => ?_
    have hblank := (h.books.sane i).blank hfree
    rw [hblank] at hx
    exact hx.elim (fun hk => absurd rfl hk) fun hs => absurd rfl hs

end World

/-- **Main theorem.**  In every run of lawful calls, bytes and descriptors stay in step. -/
theorem carries {es : List Call} (h : EachStep step World.Lawful {} es) :
    Always step World.Sound {} es ∧ EachStep step World.Answers {} es :=
  ⟨Always.of_invariant (fun _ hw => hw.sound) (fun _ _ hw hlaw => hw.step hlaw) empty_inv h,
    EachStep.of_invariant (fun _ _ hw hlaw => hw.answers hlaw)
      (fun _ _ hw hlaw => hw.step hlaw) empty_inv h⟩

instance (w : World) (e : Call) : Decidable (w.Lawful e) := by
  cases e <;> dsimp only [World.Lawful] <;> infer_instance

/-- A descriptor is passed and installed, and both ends are closed. -/
def passed : List Call :=
  [.socketpair true, .sendmsg 0 (some [{ data := [1] }]) (some [some (.other 7)]),
    .recvmsg 1 (some [{ len := 1 }]) (some 20) 1, .close 0, .read 1 1, .close 1]

theorem passed_carried : EachStep step World.Lawful {} passed ∧ Always step World.Sound {} passed ∧
    EachStep step World.Answers {} passed := by
  have hlaw : EachStep step Lawful {} passed :=
    ⟨by decide +kernel, by decide +kernel, by decide +kernel, by decide +kernel, by decide +kernel,
      by decide +kernel, trivial⟩
  exact ⟨hlaw, carries hlaw⟩

/-! ## What goes wrong -/

/-- A message without bytes passes a descriptor, and a later one is read. -/
def lateDescriptor : List Call :=
  [.socketpair true, .sendmsg 0 none (some [some (.other 7)]),
    .sendmsg 0 (some [{ data := [1] }]) none, .recvmsg 1 (some [{ len := 1 }]) (some 20) 1]

/-- Five descriptors are passed at once. -/
def fiveDescriptors : List Call :=
  [.socketpair true, .sendmsg 0 (some [{ data := [1] }]) (some (replicate 5 (some (.other 7))))]

/-- Two bytes are received into two parts, the first of which is not mapped, and then a third. -/
def unmappedPart : List Call :=
  [.socketpair true, .write 0 [1, 2], .recvmsg 1
    (some [{ mapped := false, len := 1 }, { len := 1 }]) none 0, .write 0 [3], .read 1 1]

/-- A listener is closed before the connection has been accepted. -/
def closedListener : List Call :=
  [.socket true, .bind 0 [97], .listen 0 1, .socket true, .connect 1 [97], .close 0]

/-- The descriptor comes with a byte that is not of its message, the fifth descriptor is dropped,
the second byte is lost, and the connection is nobody's. -/
theorem out_of_step : ¬ EachStep step World.Answers {} lateDescriptor ∧
    ¬ EachStep step World.Answers {} fiveDescriptors ∧
    ¬ Always step World.Sound {} unmappedPart ∧ ¬ Always step World.Sound {} closedListener := by
  refine ⟨?_, ?_, fun h => ?_, fun h => ?_⟩
  · rintro ⟨-, -, -, ⟨-, h⟩, -⟩
    exact absurd ((h 0 (.other 7) 0 0 (by decide +kernel) (by decide +kernel)).2 (by decide +kernel)
      (by decide +kernel)) (by decide +kernel)
  · rintro ⟨-, h, -⟩
    exact absurd ((h 1 (by decide +kernel)).2 (by decide)) (by decide +kernel)
  · exact absurd (h.last.bytes 1) (by decide +kernel)
  · have hkept := h.last.kept 2 (Or.inl (by decide +kernel))
    rw [Kept] at hkept
    exact absurd hkept (by decide +kernel)

end IndexOS.Channels
