import IndexOS.Descriptors.Upkeep

/-!
# Descriptors that change hands

The remaining calls: connections wait in accept queues and are accepted, descriptors are copied by
`dup`, `dup3` and `clone`, passed through channels by `sendmsg` and `recvmsg`, and dropped by
`close`, `execve` and the end of a process.

A call that drops descriptors needs that the listeners with waiting connections are held up without
them (`Anchored`).  `dup3`, `close`, `execve` and the end of a process drop entries of a table;
`accept4` and `recvmsg` drop what does not fit into the table.
-/

set_option autoImplicit false

namespace IndexOS.Descriptors

open Channel List
open Function (update update_apply update_of_ne update_self)

variable {s s' : State} {o : Obj} {f : Fd} {D K : List Fd} {P Q : Fin kMaxEspers → Proc}
  {S : Set Obj}
  {p c : Fin kMaxEspers} {i : Fin kMaxFds}

/-! ## Connections -/

section
variable (h : Booked s) (fd : Nat)
include h

/-- A call on the object of an open descriptor. -/
theorem at'_booked {n : Nat} {idx : Option Nat} {g : State → Fin n → State}
    (hg : ∀ i, Booked (g s i)) : Booked (at' s idx g) := by
  unfold at'
  cases slot n idx with
  | none => exact h
  | some i => exact hg i

theorem bindCall_booked (path : List UInt8) (ok : Bool) :
    Booked (bindCall s p fd path ok) := by
  unfold bindCall
  cases openFd s p fd with
  | none => exact h
  | some k =>
    simp only
    split
    · refine at'_booked h fun j => ?_
      split
      · exact Good.sameAntenna h rfl rfl rfl (Good.antennaOk h j).backlog
      · exact h
    · refine at'_booked h fun j => ?_
      split
      · exact Good.sameChannel h rfl rfl rfl rfl (Good.channelOk h j).backlog
      · exact h
    · exact h

omit h in
theorem backlogOf_le (n : Nat) : backlogOf n ≤ kAcceptCap := Nat.min_le_right _ _

theorem listenCall_booked (backlog : Nat) : Booked (listenCall s p fd backlog) := by
  unfold listenCall
  cases openFd s p fd with
  | none => exact h
  | some k =>
    simp only
    split
    · refine at'_booked h fun j => ?_
      split
      · exact Good.sameAntenna h rfl rfl rfl (backlogOf_le _)
      · exact h
    · refine at'_booked h fun j => ?_
      split
      · exact Good.sameChannel h rfl rfl rfl rfl (backlogOf_le _)
      · exact h
    · exact h

theorem deliverTcp_booked (j : Fin kMaxAntennas) (st : TcpState) :
    Booked (deliverTcp s j st) := by
  unfold deliverTcp
  split
  · exact Good.sameAntenna h rfl rfl rfl (Good.antennaOk h j).backlog
  · exact h

end

/-- A new connection goes from the hands of the kernel into the queue of its listener. -/
theorem Good.queueSocket {l child : Fin kMaxAntennas} (h : Good P s ∅ (f :: D))
    (hf : f.names = some (.socket child)) (huse : (s.antennas l).proto ≠ .free)
    (hlen : (s.antennas l).acceptQueue.length < (s.antennas l).backlog) :
    Good P (s.setAntenna l { s.antennas l with acceptQueue :=
      (s.antennas l).acceptQueue ++ [child] }) ∅ D := by
  have hok := h.antennaOk l
  have hpos := hok.used.1 huse
  refine h.reantenna ⟨hok.used, fun hz => ?_, ?_, hok.backlog⟩ rfl fun o => ?_
  · simp only at hz
    omega
  · have := hok.backlog
    simp only [length_append, length_singleton]
    omega
  · simp only [inHand_cons, naming_of hf, map_append, count_append, map_cons, map_nil,
      count_singleton, beq_iff_eq, eq_comm (a := o)]
    omega

theorem Good.queueChannel {l child : Fin kMaxChannels} (h : Good P s ∅ (f :: D))
    (hf : f.names = some (.channel child)) (huse : (s.channels l).kind ≠ .free)
    (hlen : (s.channels l).acceptQueue.length < (s.channels l).backlog) :
    Good P (s.setChannel l { s.channels l with acceptQueue :=
      (s.channels l).acceptQueue ++ [child] }) ∅ D := by
  have hok := h.channelOk l
  have hpos : 0 < (s.channels l).refs := by simpa using hok.used.1 huse
  refine h.rechannel ⟨hok.used, hok.dead, fun hz => ?_, hok.empty, ?_, hok.backlog, hok.pending⟩ rfl
    fun o => ?_
  · simp only at hz
    omega
  · have := hok.backlog
    simp only [length_append, length_singleton]
    omega
  · simp only [carries, inHand_cons, naming_of hf, map_append, count_append,
      map_cons, map_nil, count_singleton, beq_iff_eq, eq_comm (a := o)]
    omega

theorem deliverSyn_booked (h : Booked s) (l : Fin kMaxAntennas) : Booked (deliverSyn s l) := by
  unfold deliverSyn
  split
  · rename_i hl
    split
    · exact h
    · rename_i child hchild
      have hfree : (s.antennas child).proto = .free := by simpa using find?_some hchild
      have hne : l ≠ child := by
        rintro rfl
        rw [hl.1] at hfree
        cases hfree
      let g : Fd := { kind := .socket, sockIdx := some child.val }
      have hg : g.names = some (.socket child) := by simp [g, Fd.names]
      obtain ⟨h1, hplaces⟩ := Good.newAntenna h hfree
        (a := { proto := .tcp, bound := true, refs := 1, tcpState := .synRcvd }) (by simp) rfl rfl
        (Nat.zero_le _) hg
      generalize hs1 : s.setAntenna child
        { proto := .tcp, bound := true, refs := 1, tcpState := .synRcvd } = s1 at h1 hplaces
      have hsame : s1.antennas l = s.antennas l := by simp [← hs1, State.setAntenna, hne]
      have h2 := h1.queueSocket hg (by rw [hsame, hl.1]; simp) (by rw [hsame]; exact hl.2.2)
      rw [← hplaces.procs] at h2
      exact h2
  · exact h

theorem incConnect_booked (h : Booked s) (j : Fin kMaxChannels) (path : List UInt8) :
    Booked (incConnect s j path) := by
  unfold incConnect
  split
  · split
    · exact h
    · rename_i srv hsrv
      split
      · exact h
      · split
        · exact h
        · rename_i child hchild
          have hfree : (s.channels child).kind = .free := by simpa using find?_some hchild
          have hsrv' : (s.channels srv).kind = .stream := by
            have := find?_some hsrv
            simp only [decide_eq_true_eq] at this
            exact this.1
          have hne : ∀ x, (s.channels x).kind = .stream → x ≠ child := by
            rintro x hx rfl
            rw [hx] at hfree
            cases hfree
          let g : Fd := { kind := .unixSock, sockIdx := some child.val }
          have hg : g.names = some (.channel child) := by simp [g, Fd.names]
          -- the new channel, then the client, then the queue of the listener
          generalize hc :
            (⟨.stream, .connected, 1, (s.channels srv).path, some j, [], 0, 0, 0, []⟩ : Channel) = c
          obtain ⟨h1, hp1⟩ := Good.newChannel h hfree (c := c) (by simp [← hc]) (by simp [← hc])
            (by simp [← hc]) (by simp [← hc]) (by simp [← hc]) hg
          have hsame : ∀ x, (s.channels x).kind = .stream →
              (s.setChannel child c).channels x = s.channels x := fun x hx => by
            simp [State.setChannel, hne x hx]
          generalize s.setChannel child c = s1 at h1 hp1 hsame
          have h2 : Good s.procs (s1.setChannel j
              { s1.channels j with state := .connected, peer := some child }) ∅ [g] :=
            h1.sameChannel rfl rfl rfl rfl (h1.channelOk j).backlog
          have hsrv2 : ∀ (x : Channel), x.kind = (s1.channels j).kind →
              x.acceptQueue = (s1.channels j).acceptQueue → x.backlog = (s1.channels j).backlog →
              ((s1.setChannel j x).channels srv).kind = .stream ∧
                ((s1.setChannel j x).channels srv).acceptQueue = (s.channels srv).acceptQueue ∧
                ((s1.setChannel j x).channels srv).backlog = (s.channels srv).backlog := by
            intro x hkind hqueue hback
            have heq := hsame srv hsrv'
            by_cases hx : srv = j
            · subst hx
              simpa [State.setChannel, hkind, hqueue, hback, heq] using hsrv'
            · simpa [State.setChannel, hx, heq] using hsrv'
          obtain ⟨hkind, hqueue, hback⟩ :=
            hsrv2 { s1.channels j with state := .connected, peer := some child }
            rfl rfl rfl
          have h3 := h2.queueChannel hg (by rw [hkind]; simp) (by rw [hqueue]; omega)
          rw [← hp1.procs] at h3
          exact h3
  · exact h

theorem connectCall_booked (h : Booked s) (fd : Nat) (path : List UInt8) (ok : Bool) :
    Booked (connectCall s p fd path ok) := by
  unfold connectCall
  cases openFd s p fd with
  | none => exact h
  | some k =>
    simp only
    split
    · refine at'_booked h fun j => ?_
      have hback := (Good.antennaOk h j).backlog
      split
      · exact Good.sameAntenna h rfl rfl rfl hback
      · split
        · exact Good.sameAntenna h rfl rfl rfl hback
        · exact h
    · exact at'_booked h fun j => incConnect_booked h j path
    · exact h

/-- The first element of a kind, and the list without it. -/
theorem split_of_find? {α : Type} {q : α → Bool} {l : List α} {a : α} (h : l.find? q = some a) :
    ∃ as bs, l = as ++ a :: bs ∧ l.eraseP q = as ++ bs := by
  obtain ⟨hq, as, bs, rfl, has⟩ := find?_eq_some_iff_append.1 h
  refine ⟨as, bs, rfl, ?_⟩
  rw [eraseP_append_right _ (fun b hb => by simpa using has b hb), eraseP_cons_of_pos hq]

/-- A connection is taken from the queue of its listener. -/
theorem tryAccept_spec (h : Booked s) {f g : Fd} (hacc : tryAccept s f = some (g, s')) :
    Good s.procs s' ∅ [g] ∧ s'.procs = s.procs := by
  unfold tryAccept at hacc
  split at hacc
  · obtain ⟨j, -, hacc⟩ := Option.bind_eq_some_iff.1 hacc
    obtain ⟨r, hr, hg⟩ := Option.map_eq_some_iff.1 hacc
    obtain ⟨rfl, rfl⟩ := Prod.mk.inj hg
    simp only [antennaTcpTryAccept] at hr
    split at hr
    · split at hr
      · cases hr
      · rename_i child hfind
        obtain rfl := Option.some.inj hr
        have hok := Good.antennaOk h j
        obtain ⟨as, bs, hsplit, herase⟩ := split_of_find? hfind
        refine ⟨Good.reantenna h ⟨hok.used, fun hz => ?_, ?_, hok.backlog⟩ rfl fun o => ?_, rfl⟩
        · simp only [hok.idle hz, eraseP_nil]
        · exact Nat.le_trans length_eraseP_le hok.queue
        · rw [herase, hsplit]
          simp only [inHand_cons, map_append, map_cons, count_append,
            count_cons, beq_iff_eq]
          rw [naming_of (o := .socket child) (by simp [Fd.names])]
          simp only [eq_comm]
          omega
    · cases hr
  · obtain ⟨j, -, hacc⟩ := Option.bind_eq_some_iff.1 hacc
    obtain ⟨r, hr, hg⟩ := Option.map_eq_some_iff.1 hacc
    obtain ⟨rfl, rfl⟩ := Prod.mk.inj hg
    simp only [incTryAccept] at hr
    split at hr
    · split at hr
      · cases hr
      · rename_i child rest hqueue
        obtain rfl := Option.some.inj hr
        have hok := Good.channelOk h j
        refine ⟨Good.rechannel h ⟨hok.used, hok.dead, fun hz => ?_, hok.empty, ?_, hok.backlog,
          hok.pending⟩ rfl fun o => ?_, rfl⟩
        · have := hok.idle hz
          rw [hqueue] at this
          cases this
        · have := hok.queue
          rw [hqueue] at this
          exact Nat.le_of_succ_le this
        · rw [hqueue]
          simp only [carries, inHand_cons, map_cons, count_cons, beq_iff_eq]
          rw [naming_of (o := .channel child) (by simp [Fd.names])]
          simp only [eq_comm]
          omega
    · cases hr
  · cases hacc

theorem accept4_booked (h : Booked s) (hl : (s.procs p).live = true) {fd : Nat}
    (hcond : ∀ k g s', openFd s p fd = some k → tryAccept s ((s.procs p).fds k) = some (g, s') →
      freeFd s p 0 = none → ∃ S, Anchored s.procs s' [] S) : Booked (accept4 s p fd) := by
  unfold accept4
  cases hopen : openFd s p fd with
  | none => exact h
  | some k =>
    simp only
    cases hacc : tryAccept s ((s.procs p).fds k) with
    | none => exact h
    | some r =>
      obtain ⟨hgood, hprocs⟩ := tryAccept_spec h hacc
      have hfree : freeFd r.2 p 0 = freeFd s p 0 := by simp only [freeFd, hprocs]
      rw [← hprocs] at hgood hl
      cases hfull : freeFd s p 0 with
      | some i =>
        refine installFd_spec (S := ∅) hgood hl fun hn => ?_
        rw [hfree, hfull] at hn
        cases hn
      | none =>
        obtain ⟨S, hS⟩ := hcond k r.1 r.2 hopen hacc hfull
        exact installFd_spec hgood hl fun _ => by rwa [hprocs]

/-! ## Copies -/

theorem named_pos (hl : (P p).live = true) (hi : ((P p).fds i).names = some o) : 0 < named P o := by
  have := naming_le_named hl i o
  rw [naming_self hi] at this
  exact this

/-- A descriptor that some table names is copied into an entry that names nothing. -/
theorem copyFd_booked (h : Booked s) (hc : (s.procs c).live = true)
    (hf : ∀ o, f.names = some o → 0 < named s.procs o) (hi : ((s.procs c).fds i).names = none) :
    Booked (refFdBackend (s.setFd c i f) f) ∧
      (refFdBackend (s.setFd c i f) f).procs = withFd s.procs c i f := by
  have h1 : Good s.procs (s.setFd c i f) ∅ [] := Good.procs h _
  obtain ⟨h2, hp⟩ := h1.share (Nat.zero_le _) hf
  have h3 := h2.place hc hi
  rw [← setFd_procs, ← hp.procs] at h3
  exact ⟨h3, hp.procs⟩

section
variable (h : Booked s) (hl : (s.procs p).live = true)
include h hl

theorem linuxDupFdFrom_booked {fd minfd : Nat} {r : Fin kMaxFds × State}
    (hdup : linuxDupFdFrom s p fd minfd = some r) : Booked r.2 ∧ (r.2.procs p).live = true := by
  unfold linuxDupFdFrom at hdup
  split at hdup
  · rename_i old j hold hfree
    obtain rfl := Option.some.inj hdup
    obtain ⟨hb, hp⟩ := copyFd_booked h hl (fun o ho => named_pos hl ho)
      (freeFd_names hfree)
    refine ⟨hb, ?_⟩
    rw [hp]
    simpa using hl
  · cases hdup

theorem linuxDupFd_booked (fd : Nat) : Booked (linuxDupFd s p fd) := by
  unfold linuxDupFd
  cases hdup : linuxDupFdFrom s p fd 0 with
  | none => exact h
  | some r => exact (linuxDupFdFrom_booked h hl hdup).1

/-- Marking a descriptor does not change what it names. -/
theorem setCloexec_booked (i : Fin kMaxFds) (cloexec : Bool) :
    Booked (s.setFd p i { (s.procs p).fds i with cloexec := cloexec }) :=
  (Good.rename h hl (f := { (s.procs p).fds i with cloexec := cloexec }) rfl).procs _

theorem fcntlDupfd_booked (fd minfd : Nat) (cloexec : Bool) :
    Booked (fcntlDupfd s p fd minfd cloexec) := by
  unfold fcntlDupfd
  cases hdup : linuxDupFdFrom s p fd minfd with
  | none => exact h
  | some r =>
    obtain ⟨hb, hl'⟩ := linuxDupFdFrom_booked h hl hdup
    exact setCloexec_booked hb hl' r.1 cloexec

theorem fcntlSetfd_booked (fd : Nat) (cloexec : Bool) : Booked (fcntlSetfd s p fd cloexec) := by
  unfold fcntlSetfd
  cases openFd s p fd with
  | none => exact h
  | some i => exact setCloexec_booked h hl i cloexec

end

/-- The kinds the loop of `linux_clone` forgets. -/
def Fd.forgotten (f : Fd) : Prop := f.kind = .timerfd ∨ f.kind = .signalfd ∨ f.kind = .inotify

theorem cloneRef_eq (h : ¬ f.forgotten) (s : State) : cloneRef s f = refFdBackend s f := by
  simp only [Fd.forgotten] at h
  unfold cloneRef refFdBackend
  cases hk : f.kind <;> simp only [hk] at h ⊢ <;> simp at h

/-- Tables change that name the same objects. -/
theorem Booked.setProcs (h : Booked s) {R : Fin kMaxEspers → Proc}
    (hR : ∀ o, named R o = named s.procs o) : Booked { s with procs := R } :=
  ⟨(Good.procs h _).sound, fun o => (h.balanced o).trans (by rw [← hR]; rfl)⟩

/-- A process starts in a slot that is not taken. -/
theorem esperCreate_booked (h : Booked s) (hc : (s.procs c).live = false) :
    Booked (esperCreate s c) := by
  refine h.setProcs fun o => tally_same ?_
  simp only [Proc.naming, hc]
  have hzero : ∀ i, naming o (newFds i) = 0 := fun i => by
    unfold newFds
    split <;> rfl
  exact tally_eq_zero hzero

/-- The loop of `linux_clone`, when it forgets nothing. -/
theorem inheritFds_loop (hp : p ≠ c) (l : List (Fin kMaxFds)) :
    ∀ s : State, Booked s → (s.procs p).live = true → (s.procs c).live = true → l.Nodup →
      (∀ i, ¬ ((s.procs p).fds i).forgotten) → (∀ i ∈ l, ((s.procs c).fds i).names = none) →
      Booked (l.foldl (fun s i => cloneRef (s.setFd c i ((s.procs p).fds i)) ((s.procs p).fds i))
        s) := by
  induction l with
  | nil => exact fun s h _ _ _ _ _ => h
  | cons i l ih =>
    intro s h hl hc hnodup hkeep hfree
    rw [foldl_cons, cloneRef_eq (hkeep i)]
    obtain ⟨hb, hprocs⟩ := copyFd_booked h hc (fun o ho => named_pos hl ho)
      (hfree i (by simp))
    have hsame : ∀ f, withFd s.procs c i f p = s.procs p := fun f => by simp [withFd, hp]
    refine ih _ hb ?_ ?_ (nodup_cons.1 hnodup).2 ?_ ?_
    · rw [hprocs, hsame]
      exact hl
    · rw [hprocs]
      simpa using hc
    · rw [hprocs, hsame]
      exact hkeep
    · intro j hj
      have hne : j ≠ i := fun heq => (nodup_cons.1 hnodup).1 (heq ▸ hj)
      rw [hprocs, withFd_fds, update_of_ne hne]
      exact hfree j (by simp [hj])

section
variable (h : Booked s) (hl : (s.procs p).live = true)
include h hl

theorem linuxClone_booked (hc : (s.procs c).live = false)
    {ok : Bool} (hkeep : ok = true → ∀ i, ¬ ((s.procs p).fds i).forgotten) :
    Booked (linuxClone s p c ok) := by
  have hne : p ≠ c := by
    rintro rfl
    rw [hl] at hc
    cases hc
  unfold linuxClone
  split
  · rename_i hok
    have hsame : (esperCreate s c).procs p = s.procs p := by simp [esperCreate, State.setProc, hne]
    have hnew : (esperCreate s c).procs c = { live := true, fds := newFds } := by
      simp [esperCreate, State.setProc]
    refine inheritFds_loop hne _ _ (esperCreate_booked h hc) (by rw [hsame]; exact hl)
      (by rw [hnew]) (nodup_finRange _) (by rw [hsame]; exact hkeep hok) fun i _ => ?_
    rw [hnew]
    simp only [newFds]
    split <;> rfl
  · exact h.setProcs fun o => tally_same (by simp [Proc.naming, hc])

/-! ## Dropping entries -/

/-- An entry is released.  What holds things up are the entries `Q`, which may be fewer than those
left in the tables. -/
theorem releaseEsperFd_booked (i : Fin kMaxFds)
    (hQ : ∀ o, named Q o ≤ named (withFd s.procs p i {}) o) (hanch : Anchored Q s [] S) :
    Booked (releaseEsperFd s p i) ∧ (releaseEsperFd s p i).procs = withFd s.procs p i {} ∧
      Anchored Q (releaseEsperFd s p i) [] S := by
  have hr := release_spec hQ (Good.lift h hl i) hanch
  have hprocs : (releaseEsperFd s p i).procs = withFd s.procs p i {} := by
    rw [releaseEsperFd, setFd_procs, hr.procs]
  refine ⟨?_, hprocs, hr.anchored.procs _⟩
  have := hr.good.procs (releaseEsperFd s p i).procs
  rwa [← hprocs] at this

theorem linuxFdClose_booked {fd : Nat}
    (hcond : ∀ i, slot kMaxFds (some fd) = some i → ∃ S, Anchored (withFd s.procs p i {}) s [] S) :
    Booked (linuxFdClose s p fd) := by
  unfold linuxFdClose
  cases hslot : slot kMaxFds (some fd) with
  | none => exact h
  | some i =>
    simp only
    split
    · exact h
    · obtain ⟨S, hS⟩ := hcond i hslot
      exact (releaseEsperFd_booked h hl i (fun _ => Nat.le_refl _) hS).1

theorem linuxDup3Fd_booked {fd newfd : Nat}
    (hcond : ∀ old i, openFd s p fd = some old → slot kMaxFds (some newfd) = some i → old ≠ i →
      ∃ S, Anchored (withFd s.procs p i {}) s [] S) : Booked (linuxDup3Fd s p fd newfd) := by
  unfold linuxDup3Fd
  split
  · rename_i old i hold hslot
    split
    · exact h
    · rename_i hne
      obtain ⟨S, hS⟩ := hcond old i hold hslot hne
      obtain ⟨h1, hprocs, -⟩ := releaseEsperFd_booked h hl i (fun _ => Nat.le_refl _) hS
      have hl1 : ((releaseEsperFd s p i).procs p).live = true := by
        rw [hprocs]
        simpa using hl
      refine (copyFd_booked h1 hl1 (fun o ho => named_pos hl1 ho) ?_).1
      rw [hprocs, withFd_fds, update_self]
      rfl
  · exact h

end

/-- The descriptors of a process without those to be dropped. -/
def dropFds (q : Fd → Bool) (fds : Fin kMaxFds → Fd) (i : Fin kMaxFds) : Fd :=
  if q (fds i) then {} else fds i

/-- The tables with the descriptors of one process replaced. -/
def withFds (P : Fin kMaxEspers → Proc) (p : Fin kMaxEspers) (fds : Fin kMaxFds → Fd) :
    Fin kMaxEspers → Proc :=
  update P p ⟨(P p).live, fds⟩

theorem named_withFds_le (hl : (P p).live = true) {fds : Fin kMaxFds → Fd}
    (h : ∀ i, naming o (fds i) ≤ naming o ((P p).fds i)) :
    named (withFds P p fds) o ≤ named P o := by
  have h1 : named (withFds P p fds) o + Proc.naming o (P p) = named P o + Proc.naming o
    ⟨(P p).live, fds⟩ :=
    tally_update (fun _ => Proc.naming o) P p _
  have h2 : Proc.naming o ⟨(P p).live, fds⟩ ≤ Proc.naming o (P p) := by
    simp only [Proc.naming, hl, if_true]
    exact Finset.sum_le_sum fun i _ => h i
  omega

theorem withFds_withFd (P : Fin kMaxEspers → Proc) (p : Fin kMaxEspers) (i : Fin kMaxFds) (f : Fd)
    (fds : Fin kMaxFds → Fd) : withFds (withFd P p i f) p fds = withFds P p fds := by
  simp [withFds, withFd]

/-- A loop that releases the descriptors of one kind: each entry it has passed is as it should
be. -/
theorem releaseWhere_loop (q : Fd → Bool) (fds : Fin kMaxFds → Fd) (l : List (Fin kMaxFds)) :
    ∀ s : State, Booked s → (s.procs p).live = true → (∀ i, fds i = dropFds q (s.procs p).fds i) →
      Anchored (withFds s.procs p fds) s [] S →
      let s' := l.foldl (fun s i => if q ((s.procs p).fds i) then releaseEsperFd s p i else s) s
      Booked s' ∧ ∀ i, i ∈ l ∨ (s.procs p).fds i = fds i → (s'.procs p).fds i = fds i := by
  induction l with
  | nil => exact fun s h _ _ _ => ⟨h, fun i hi => hi.resolve_left (by simp)⟩
  | cons j l ih =>
    intro s h hl hfds hanch
    simp only [foldl_cons]
    by_cases hq : q ((s.procs p).fds j) = true
    · rw [if_pos hq]
      have hj : fds j = {} := by rw [hfds j, dropFds, if_pos hq]
      have hle : ∀ o, named (withFds s.procs p fds) o ≤ named (withFd s.procs p j {}) o := by
        intro o
        rw [← withFds_withFd s.procs p j {} fds]
        refine named_withFds_le (by simpa using hl) fun i => ?_
        rw [withFd_fds]
        by_cases hi : i = j
        · subst hi
          rw [hj, update_self]
        · rw [update_of_ne hi, hfds i, dropFds]
          split
          · exact Nat.zero_le _
          · exact Nat.le_refl _
      obtain ⟨h1, hprocs, hanch1⟩ := releaseEsperFd_booked h hl j hle hanch
      have hfds1 : ∀ i, ((releaseEsperFd s p j).procs p).fds i = if i = j then {}
        else (s.procs p).fds i :=
        fun i => by rw [hprocs, withFd_fds, update_apply]
      obtain ⟨hb, hdone⟩ := ih (releaseEsperFd s p j) h1 (by rw [hprocs]; simpa using hl)
        (fun i => by
          unfold dropFds
          rw [hfds1]
          by_cases hi : i = j
          · subst hi
            simp [hj]
          · simpa [hi, dropFds] using hfds i)
        (by rwa [hprocs, withFds_withFd])
      refine ⟨hb, fun i hi => hdone i ?_⟩
      rw [hfds1]
      by_cases hij : i = j
      · subst hij
        exact Or.inr (by rw [if_pos rfl, hj])
      · rw [if_neg hij]
        exact hi.imp_left fun hmem => (mem_cons.1 hmem).resolve_left hij
    · rw [if_neg hq]
      obtain ⟨hb, hdone⟩ := ih s h hl hfds hanch
      refine ⟨hb, fun i hi => hdone i ?_⟩
      by_cases hij : i = j
      · subst hij
        exact Or.inr (by rw [hfds i, dropFds, if_neg hq])
      · exact hi.imp_left fun hmem => (mem_cons.1 hmem).resolve_left hij

/-- The descriptors a successful `execve` drops. -/
def Fd.dropsOnExec (f : Fd) : Bool := f.kind ≠ .closed ∧ f.cloexec

theorem execveCloexec_booked (h : Booked s) (hl : (s.procs p).live = true)
    (hcond : Anchored (withFds s.procs p (dropFds Fd.dropsOnExec (s.procs p).fds)) s [] S) :
    Booked (execveCloexec s p) := by
  have hloop := (releaseWhere_loop Fd.dropsOnExec _ (finRange kMaxFds) s h hl (fun _ => rfl)
    hcond).1
  simpa only [execveCloexec, Fd.dropsOnExec, decide_eq_true_eq] using hloop

theorem bury_booked (h : Booked s) (hfds : ∀ i, ((s.procs p).fds i).names = none) :
    Booked (s.bury p) := by
  refine h.setProcs fun o => tally_same ?_
  simp only [Proc.naming, Bool.false_eq_true, if_false]
  split
  · exact (tally_eq_zero fun i => naming_none (hfds i) o).symm
  · rfl

theorem exitProc_booked (h : Booked s) (hl : (s.procs p).live = true)
    (hcond : Anchored (withFds s.procs p fun _ => {}) s [] S) : Booked (exitProc s p) := by
  obtain ⟨hb, hdone⟩ := releaseWhere_loop (fun _ => true) (fun _ => {}) (finRange kMaxFds)
    s h hl (fun _ => rfl) hcond
  simp only [if_true] at hdone
  refine bury_booked hb fun i => ?_
  have hi : ((releaseEsperPipes s p).procs p).fds i = {} := hdone i (Or.inl (mem_finRange i))
  rw [hi]
  rfl

/-! ## Descriptors in flight -/

/-- The descriptors to be passed are in hand, with a reference for each. -/
theorem collectFds_spec (n : Nat) (fds : List Nat) :
    ∀ (s : State) (D : List Fd), Good s.procs s ∅ D → (s.procs p).live = true →
      D.length + n ≤ 2 * kChannelScmMax →
      let r := collectFds p n fds s
      Good s.procs r.2 ∅ (r.1 ++ D) ∧ SamePlaces s r.2 := by
  induction fds generalizing n with
  | nil =>
    intro s D h _ _
    cases n <;> exact ⟨h, SamePlaces.refl s⟩
  | cons fd fds ih =>
    intro s D h hl hlen
    cases n with
    | zero => exact ⟨h, SamePlaces.refl s⟩
    | succ n =>
      simp only [collectFds]
      cases hopen : openFd s p fd with
      | none => exact ih (n + 1) s D h hl hlen
      | some i =>
        simp only
        obtain ⟨h1, hp1⟩ := h.share (by omega) fun o ho => named_pos hl ho
        generalize (s.procs p).fds i = f at h1 hp1
        rw [← hp1.procs] at h1
        obtain ⟨h2, hp2⟩ := ih n _ (f :: D) h1 (by rw [hp1.procs]; exact hl)
          (by rw [length_cons]; omega)
        rw [hp1.procs] at h2
        refine ⟨h2.reorder fun o => ?_, hp1.trans hp2⟩
        simp only [inHand_append, inHand_cons]
        omega

theorem sendPeer_kind {j k : Fin kMaxChannels} (h : sendPeer s j = some k) :
    (s.channels k).kind ≠ .free := by
  simp only [sendPeer] at h
  split at h
  · simpa using (Option.filter_eq_some_iff.1 h).2
  · cases h

theorem incAttachFds_spec (h : Good P s ∅ D) (hanch : Anchored P s K S) (j : Fin kMaxChannels) :
    let r := incAttachFds s j D
    Good P r.2 ∅ (D.drop r.1) ∧ Anchored P r.2 K S ∧ r.2.procs = s.procs := by
  simp only [incAttachFds]
  cases hpeer : sendPeer s j with
  | none => exact ⟨h, hanch, rfl⟩
  | some k =>
    simp only
    have hok := h.channelOk k
    have hkind := sendPeer_kind hpeer
    generalize hm : D.take (kChannelScmMax - (s.channels k).scmPending.length) = moved
    have hdrop : moved ++ D.drop moved.length = D := prefix_iff_eq_append.1 (hm ▸ take_prefix _ D)
    have hlen : moved.length ≤ kChannelScmMax - (s.channels k).scmPending.length := by
      rw [← hm, length_take]
      exact Nat.min_le_left _ _
    have hcarries : ∀ o, inHand o (((s.channels k).scmPending ++
        moved.map fun f => (f, (s.channels k).rxTotal)).map Prod.fst) =
          (s.channels k).carries o + inHand o moved := fun o => by
      simp [carries, Function.comp_def]
    refine ⟨h.rechannel
      ⟨hok.used, hok.dead, hok.idle, fun hz => absurd hz hkind, hok.queue, hok.backlog,
      ?_⟩ rfl fun o => ?_, hanch.setChannel rfl fun _ o => ?_, rfl⟩
    · have := hok.pending
      simp only [length_append, length_map]
      omega
    · have hD : inHand o D = inHand o moved + inHand o (D.drop moved.length) := by
        rw [← inHand_append, hdrop]
      have hc := hcarries o
      simp only [carries] at hc ⊢
      rw [hc]
      omega
    · have hc := hcarries o
      simp only [carries] at hc ⊢
      omega

theorem foldl_release (D : List Fd) :
    ∀ s : State, Good P s ∅ D → Anchored P s [] S →
      Good P (D.foldl release s) ∅ [] ∧ (D.foldl release s).procs = s.procs := by
  induction D with
  | nil => exact fun s h _ => ⟨h, rfl⟩
  | cons f D ih =>
    intro s h hanch
    have h1 := release_spec (fun _ => Nat.le_refl _) h hanch
    obtain ⟨h2, hp⟩ := ih _ h1.good h1.anchored
    exact ⟨h2, hp.trans h1.procs⟩

section
variable (h : Booked s)
include h

theorem incSend_booked (j : Fin kMaxChannels) (len : Nat) : Booked (incSend s j len) := by
  unfold incSend
  cases sendPeer s j with
  | none => exact h
  | some k =>
    exact Good.sameChannel h rfl rfl rfl rfl (Good.channelOk h k).backlog

theorem sendmsg_booked (hl : (s.procs p).live = true) (fd : Nat)
    (control : Option (List Nat)) (len : Nat) : Booked (sendmsg s p fd control len) := by
  unfold sendmsg
  cases openFd s p fd with
  | none => exact h
  | some k =>
    simp only
    split
    · refine at'_booked h fun j => incSend_booked ?_ j _
      cases control with
      | none => exact h
      | some fds =>
        obtain ⟨h1, hp1⟩ := collectFds_spec kChannelScmMax fds s [] h hl
          (by simp only [length_nil]; omega)
        rw [append_nil] at h1
        obtain ⟨h2, hanch2, hp2⟩ := incAttachFds_spec h1 ((Good.anchored h).congr hp1) j
        obtain ⟨h3, hp3⟩ := foldl_release _ _ h2 hanch2
        have hprocs := hp3.trans (hp2.trans hp1.procs)
        rw [← hprocs] at h3
        exact h3
    · exact h

theorem incTryRecv_booked {j : Fin kMaxChannels} {cap : Nat} {r : Nat × Bool × State}
    (hr : incTryRecv s j cap = some r) : Booked r.2.2 ∧ r.2.2.procs = s.procs := by
  simp only [incTryRecv] at hr
  split at hr
  · obtain rfl := Option.some.inj hr
    exact ⟨Good.sameChannel h rfl rfl rfl rfl (Good.channelOk h j).backlog, rfl⟩
  · cases hr

variable (j : Fin kMaxChannels)

theorem incTakeFds_spec (n : Nat) :
    Good s.procs (incTakeFds s j n).2 ∅ (incTakeFds s j n).1 ∧
      (incTakeFds s j n).2.procs = s.procs := by
  simp only [incTakeFds]
  split
  · exact ⟨h, rfl⟩
  · rename_i hkind
    have hok := Good.channelOk h j
    generalize htake : ((s.channels j).scmPending.take n).takeWhile (fun x =>
      decide (x.2 < ((s.channels j).rxTotal + 2 ^ 64 - (s.channels j).rxAvail) % 2 ^ 64)) = take
    have hsplit : take ++ (s.channels j).scmPending.drop take.length = (s.channels j).scmPending :=
      prefix_iff_eq_append.1 (htake ▸ ( takeWhile_prefix _).trans ( take_prefix _ _))
    refine ⟨Good.rechannel h ⟨hok.used, hok.dead, hok.idle, fun hz => absurd hz hkind, hok.queue,
      hok.backlog, ?_⟩ rfl fun o => ?_, rfl⟩
    · have := hok.pending
      simp only [length_drop]
      omega
    · have : (s.channels j).carries o =
          inHand o (take.map Prod.fst) + inHand o
            (((s.channels j).scmPending.drop take.length).map Prod.fst) := by
        rw [carries, ← inHand_append, ← map_append, hsplit]
      rw [this]
      simp only [carries, inHand_nil]
      omega

theorem recvFds_spec (want : Nat) (control : Option Nat)
    (parks : Bool) :
    Good s.procs (recvFds s j want control parks).2 ∅ (recvFds s j want control parks).1 ∧
      (recvFds s j want control parks).2.procs = s.procs := by
  have htake : ∀ s' r, Booked s' → s'.procs = s.procs →
      (r = ([], s') ∨ ∃ n, r = incTakeFds s' j n) →
      Good s.procs r.2 ∅ r.1 ∧ r.2.procs = s.procs := by
    rintro s' r h' hp (rfl | ⟨n, rfl⟩)
    · exact ⟨hp ▸ h', hp⟩
    · obtain ⟨hg, hp'⟩ := incTakeFds_spec h' j n
      rw [hp] at hg hp'
      exact ⟨hg, hp'⟩
  simp only [recvFds]
  split
  · refine htake s _ h rfl ?_
    cases control with
    | none => exact Or.inl rfl
    | some room => exact Or.inr ⟨_, rfl⟩
  · cases hrecv : incTryRecv s j (min want 2048) with
    | none => exact ⟨h, rfl⟩
    | some r =>
      simp only
      split
      · exact ⟨h, rfl⟩
      · obtain ⟨hb, hp⟩ := incTryRecv_booked h hrecv
        refine htake r.2.2 _ hb hp ?_
        cases control with
        | none => exact Or.inl rfl
        | some room => exact Or.inr ⟨_, rfl⟩

end

/-- How many descriptors of a process are closed. -/
def closedFds (s : State) (p : Fin kMaxEspers) : Nat :=
  tally (fun _ (f : Fd) => if f.kind = .closed then 1 else 0) (s.procs p).fds

theorem closedFds_eq_zero (h : freeFd s p 0 = none) : closedFds s p = 0 := by
  by_contra hne
  obtain ⟨i, hi⟩ := exists_of_tally_pos (Nat.pos_of_ne_zero hne)
  have hnot := find?_eq_none.1 h i (mem_finRange i)
  simp only [Nat.zero_le, true_and, decide_eq_true_eq] at hnot
  simp only [hnot] at hi
  exact absurd hi (Nat.lt_irrefl 0)

theorem closedFds_pos (h : freeFd s p 0 = some i) : 0 < closedFds s p := by
  have := le_tally (fun _ (f : Fd) => if f.kind = .closed then 1 else 0) (s.procs p).fds i
  rwa [if_pos (freeFd_closed h)] at this

theorem closedFds_setFd (s : State) (p : Fin kMaxEspers) (i : Fin kMaxFds) (f : Fd) :
    closedFds s p ≤ closedFds (s.setFd p i f) p + 1 := by
  have h := tally_update (fun _ (f : Fd) => if f.kind = .closed then 1 else 0) (s.procs p).fds i f
  have hle : (if ((s.procs p).fds i).kind = .closed then 1 else 0) ≤ 1 := by split <;> omega
  have heq : closedFds (s.setFd p i f) p = tally
      (fun _ (f : Fd) => if f.kind = .closed then 1 else 0) (update (s.procs p).fds i f) := by
    unfold closedFds
    rw [setFd_procs, withFd_fds]
  rw [heq]
  unfold closedFds
  omega

theorem inHand_take_le {m n : Nat} (h : m ≤ n) (D : List Fd) (o : Obj) :
    inHand o (D.take m) ≤ inHand o (D.take n) := by
  obtain ⟨rest, hrest⟩ := take_prefix_take_left h
  rw [← hrest, inHand_append]
  omega

theorem Anchored.more (h : Anchored P s K S) {K' : List Fd} (hK : ∀ o, inHand o K ≤ inHand o K') :
    Anchored P s K' S where
  listeners := h.listeners
  kept o ho := (h.kept o ho).imp_right
    (Or.imp_right (Or.imp_left fun hk => Nat.lt_of_lt_of_le hk (hK o)))

/-- What was received is installed as far as there is room, and the rest is released. -/
theorem installFds_loop (D : List Fd) :
    ∀ s : State, Good s.procs s ∅ D → (s.procs p).live = true →
      Anchored s.procs s (D.take (closedFds s p)) S →
      Booked (D.foldl (fun s f => installFd s p 0 f) s) := by
  induction D with
  | nil => exact fun s h _ _ => h
  | cons f D ih =>
    intro s h hl hanch
    rw [foldl_cons]
    unfold installFd
    cases hfree : freeFd s p 0 with
    | some i =>
      obtain ⟨n, hn⟩ := Nat.exists_eq_add_of_lt (closedFds_pos hfree)
      rw [show closedFds s p = n + 1 by omega] at hanch
      have hroom := closedFds_setFd s p i f
      refine ih (s.setFd p i f) ((h.place hl (freeFd_names hfree)).procs _)
        (by rw [setFd_procs]; simpa using hl) ?_
      exact ((hanch.place hl (freeFd_names hfree)).procs _).more (inHand_take_le (by omega) D)
    | none =>
      have hzero := closedFds_eq_zero hfree
      rw [hzero] at hanch
      have hr := release_spec (fun _ => Nat.le_refl _) h hanch
      have hgood := hr.good
      have hanch' := hr.anchored
      have hzero' : closedFds (release s f) p = 0 := by
        unfold closedFds
        rw [hr.procs]
        exact hzero
      rw [← hr.procs] at hgood hanch'
      refine ih _ hgood (by rw [hr.procs]; exact hl) ?_
      rwa [hzero']

theorem recvmsg_booked (h : Booked s) (hl : (s.procs p).live = true) {fd want : Nat}
    {control : Option Nat} {parks : Bool}
    (hcond : ∀ k j, openFd s p fd = some k → ((s.procs p).fds k).names = some (.channel j) →
      ∃ S, Anchored s.procs (recvFds s j want control parks).2
        ((recvFds s j want control parks).1.take (closedFds s p)) S) :
    Booked (recvmsg s p fd want control parks) := by
  unfold recvmsg
  cases hopen : openFd s p fd with
  | none => exact h
  | some k =>
    simp only
    split
    · rename_i hkind
      unfold at'
      cases hslot : slot kMaxChannels ((s.procs p).fds k).sockIdx with
      | none => exact h
      | some j =>
        obtain ⟨hgood, hprocs⟩ := recvFds_spec h j want control parks
        obtain ⟨S, hS⟩ := hcond k j hopen (by simp [Fd.names, hkind, hslot])
        have hclosed : closedFds (recvFds s j want control parks).2 p = closedFds s p := by
          unfold closedFds
          rw [hprocs]
        rw [← hprocs] at hgood hS hl
        rw [← hclosed] at hS
        exact installFds_loop _ _ hgood hl hS
    · exact h

theorem writeCall_booked (h : Booked s) (fd len : Nat) : Booked (writeCall s p fd len) := by
  unfold writeCall
  cases openFd s p fd with
  | none => exact h
  | some k =>
    simp only
    split
    · exact at'_booked h fun j => incSend_booked h j _
    · exact h

theorem readCall_booked (h : Booked s) (fd cap : Nat) : Booked (readCall s p fd cap) := by
  unfold readCall
  cases openFd s p fd with
  | none => exact h
  | some k =>
    simp only
    split
    · refine at'_booked h fun j => ?_
      cases hrecv : incTryRecv s j (cap % 2 ^ 32) with
      | none => exact h
      | some r => exact (incTryRecv_booked h hrecv).1
    · exact h

end IndexOS.Descriptors
