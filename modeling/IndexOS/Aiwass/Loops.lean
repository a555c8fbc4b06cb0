import IndexOS.Aiwass.Pipe

/-!
# What one call does to a pipe

Plain reads and writes move bytes and report them in one step.  A vectored call does so part by
part, and what it does when it has to stop depends on how it stops: a descriptor that does not block
makes it report what has been moved so far, while parking, going round and a part that is not mapped
make it forget that.

* `Moves` — what a call has done to the ring;
* `writevFrom_spec`, `readvFrom_spec` — the loops, and that the condition is exact for them;
* `Runs`, `exec_runs` — every call, from wherever it goes on.
-/

set_option autoImplicit false

namespace IndexOS.Pipes

open List

/-! ## One transfer -/

/-- Bytes have been put into the ring, and taken from it. -/
structure Moves (p p' : Aiwass) (stored taken : List UInt8) : Prop where
  inUse : p'.inUse = p.inUse
  readRefs : p'.readRefs = p.readRefs
  writeRefs : p'.writeRefs = p.writeRefs
  tidy : p'.ring.Tidy
  contents : p.ring.contents ++ stored = taken ++ p'.ring.contents

namespace Moves

variable {p p' p'' : Aiwass} {bytes taken more taken' : List UInt8}

theorem refl (h : p.ring.Tidy) : Moves p p [] [] := ⟨rfl, rfl, rfl, h, append_nil _⟩

theorem trans (h : Moves p p' bytes taken) (h' : Moves p' p'' more taken') :
    Moves p p'' (bytes ++ more) (taken ++ taken') :=
  ⟨h'.inUse.trans h.inUse, h'.readRefs.trans h.readRefs, h'.writeRefs.trans h.writeRefs, h'.tidy,
    by rw [← append_assoc, h.contents, append_assoc, h'.contents, append_assoc]⟩

theorem avail (h : Moves p p' bytes taken) :
    p.ring.avail + bytes.length = taken.length + p'.ring.avail := by
  have := congrArg length h.contents
  rwa [length_append, length_append, RingBuffer.length_contents, RingBuffer.length_contents] at this

variable (h : Moves p p' bytes [])
include h

theorem room : p'.room = p.room - bytes.length := by
  have := h.avail
  rw [length_nil] at this
  rw [Aiwass.room, Aiwass.room]
  omega

theorem eq_nil (hroom : p.room = 0) : bytes = [] := by
  have havail := h.avail
  have hle := h.tidy.avail_le
  rw [length_nil] at havail
  rw [Aiwass.room] at hroom
  exact length_eq_zero_iff.1 (by omega)

end Moves

namespace Aiwass

variable {p : Aiwass} (nonblock : Bool)

section
variable (huse : p.inUse = true) (hreads : 0 < p.readRefs) (htidy : p.ring.Tidy) {src : List UInt8}
include huse hreads htidy

/-- There is room: as much as possible is stored. -/
theorem linuxPipeWrite_of_takes (h : Takes p.room src.length) :
    ∃ p', p.linuxPipeWrite nonblock (some src) = (p', .gives (min src.length p.room)) ∧
      Moves p p' (src.take (min src.length p.room)) [] := by
  obtain ⟨hroom, hfew⟩ := h
  have hle := htidy.avail_le
  have hwrite : p.write (some src) =
      ({ p with ring := p.ring.putAll (src.take (min src.length p.room)) }, .moved
        (min src.length p.room)) := by
    rw [write, if_neg (by simp [huse]), if_neg (by omega), if_neg, if_neg]
    · rintro ⟨hshort, hsmall⟩
      exact absurd (hfew hshort) (by omega)
    · rw [room] at hroom
      omega
  refine ⟨_, by rw [linuxPipeWrite, hwrite], ?_⟩
  obtain ⟨htidy', hcontents⟩ := RingBuffer.putAll_spec (src.take (min src.length p.room)) htidy (by
    rw [length_take, room]
    omega)
  exact ⟨rfl, rfl, rfl, htidy', hcontents.symm⟩

/-- There is none. -/
theorem linuxPipeWrite_of_not_takes (h : ¬ Takes p.room src.length) :
    p.linuxPipeWrite nonblock (some src) =
      (p, if nonblock then .fails (-11) else if p.writable then .again else .parked) := by
  have hle := htidy.avail_le
  have hwrite : p.write (some src) = (p, .wouldBlock) := by
    rw [write, if_neg (by simp [huse]), if_neg (by omega)]
    by_cases hfull : p.ring.avail = kAiwassBufSize
    · rw [if_pos hfull]
    · rw [if_neg hfull, if_pos]
      by_contra hnot
      refine h ⟨?_, fun hshort => ?_⟩
      · rw [room]
        omega
      · by_contra hsmall
        exact hnot ⟨hshort, by omega⟩
  rw [linuxPipeWrite, hwrite]

end

theorem linuxPipeWrite_of_no_reader (hreads : p.readRefs = 0) (src : Option (List UInt8)) :
    p.linuxPipeWrite nonblock src = (p, .fails (-32)) := by
  have hwrite : p.write src = (p, .brokenPipe) := by
    cases src with
    | none => rfl
    | some src =>
      rw [write]
      split <;> rfl
  rw [linuxPipeWrite, hwrite]

/-- There is something to read. -/
theorem linuxPipeRead_of_avail (huse : p.inUse = true) (htidy : p.ring.Tidy)
    (havail : 0 < p.ring.avail) (len : Nat) :
    ∃ p' bytes, p.linuxPipeRead nonblock len = (p', .gives bytes) ∧ Moves p p' [] bytes ∧
      bytes.length = min len p.ring.avail := by
  obtain ⟨htidy', hlength, hcontents⟩ :=
    RingBuffer.takeN_spec (min len p.ring.avail) htidy (Nat.min_le_right _ _)
  have hread : p.read len = ({ p with ring := (p.ring.takeN (min len p.ring.avail)).2 },
      .moved (p.ring.takeN (min len p.ring.avail)).1) := by
    rw [read, if_neg (by simp [huse]), if_neg (by omega)]
  refine ⟨_, _, by rw [linuxPipeRead, hread], ?_, hlength⟩
  exact ⟨rfl, rfl, rfl, htidy', (append_nil _).trans hcontents⟩

/-- There is nothing to read. -/
theorem linuxPipeRead_of_empty (huse : p.inUse = true) (havail : p.ring.avail = 0) (len : Nat) :
    p.linuxPipeRead nonblock len =
      (p, if p.writeRefs = 0 then .gives [] else if nonblock then .fails (-11) else .parked) := by
  by_cases hwriters : p.writeRefs = 0
  · have hread : p.read len = (p, .moved []) := by
      rw [read, if_neg (by simp [huse]), if_pos havail, if_neg (by omega)]
    rw [linuxPipeRead, hread, if_pos hwriters]
  · have hread : p.read len = (p, .wouldBlock) := by
      rw [read, if_neg (by simp [huse]), if_pos havail, if_pos (by omega)]
    have hnot : p.readable = false := by simp [readable, huse, havail, hwriters]
    rw [linuxPipeRead, hread, if_neg hwriters]
    rw [if_neg (by simp [hnot] : ¬ p.readable = true)]

end Aiwass

/-! ## The loop of `writev` -/

theorem payload_cons (v : Piece) (rest : List Piece) :
    payload (v :: rest) = v.data ++ payload rest := by
  rw [payload, payload, map_cons, flatten_cons]

variable {nonblock : Bool} {pd : Pending} {p : Aiwass} {avail writers begun : Nat} {room : Nat}
  {rest : List Piece}

theorem flows_cons {begun : Prop} {v : Piece} :
    Flows nonblock room begun (v :: rest) ↔
      (v.data ≠ [] → begun → v.mapped = true ∧ (nonblock = true ∨ Takes room v.data.length)) ∧
      ((v.data ≠ [] → v.mapped = true ∧ Takes room v.data.length) →
        Flows nonblock (room - v.data.length) (begun ∨ v.data ≠ []) rest) := by
  constructor
  · intro h
    refine ⟨fun hdata hbegun => ?_, fun hpass before u after heq hu hbegun hpasses => ?_⟩
    · simpa [payload] using h [] v rest rfl hdata (Or.inl hbegun) trivial
    · have hu' := h (v :: before) u after (by rw [heq, cons_append]) hu ?_ ⟨hpass, hpasses⟩
      · rwa [payload_cons, length_append, ← Nat.sub_sub] at hu'
      · rcases hbegun with (hbegun | hv) | hbefore
        · exact Or.inl hbegun
        · exact Or.inr fun hnil => hv (append_eq_nil_iff.1 hnil).1
        · exact Or.inr fun hnil => hbefore (append_eq_nil_iff.1 hnil).2
  · rintro ⟨hfirst, hrest⟩ before u after heq hu hbegun hpasses
    cases before with
    | nil =>
      obtain ⟨rfl, rfl⟩ := cons.inj heq
      have hbegun' : begun := hbegun.resolve_right fun hne => hne rfl
      simpa [payload] using hfirst hu hbegun'
    | cons v' before =>
      obtain ⟨rfl, rfl⟩ := cons.inj heq
      rw [payload_cons] at hbegun ⊢
      have hu' := hrest hpasses.1 before u after rfl hu ?_ hpasses.2
      · rwa [length_append, ← Nat.sub_sub]
      · by_cases hv : v.data = []
        · rw [hv] at hbegun
          exact hbegun.imp_left Or.inl
        · exact Or.inl (Or.inr hv)

theorem flows_congr {begun begun' : Prop} {iov : List Piece} (h : begun ↔ begun') :
    Flows nonblock room begun iov ↔ Flows nonblock room begun' iov := by
  simp only [h]

/-- Where the loop does not get past a part. -/
theorem flows_stuck {begun : Prop} {v : Piece} (hdata : v.data ≠ [])
    (hnot : ¬ (v.mapped = true ∧ Takes room v.data.length)) :
    Flows nonblock room begun (v :: rest) ↔ (begun → v.mapped = true ∧ nonblock = true) := by
  rw [flows_cons]
  constructor
  · intro h hbegun
    obtain ⟨hmapped, hgoes⟩ := h.1 hdata hbegun
    exact ⟨hmapped, hgoes.resolve_right fun htakes => hnot ⟨hmapped, htakes⟩⟩
  · intro h
    exact ⟨fun _ hbegun => ⟨(h hbegun).1, Or.inl (h hbegun).2⟩,
      fun hpass => absurd (hpass hdata) hnot⟩

/-- The call has failed, or it has not come back. -/
def Stop.Quiet (stop : Stop) : Prop := ∀ answer got, stop = .done answer got → answer < 0

theorem quiet_of_neg {errno : Int} (h : errno < 0) (got : List UInt8) :
    (Stop.done errno got).Quiet := by
  rintro _ _ ⟨⟩
  exact h

/-- The call reports what it has stored, or has not stored anything. -/
def Keeps (iov : List Piece) (total : Nat) (bytes : List UInt8) (stop : Stop) : Prop :=
  (stop = .done ((total + bytes.length : Nat) : Int) [] ∧ bytes <+: payload iov) ∨
    (bytes = [] ∧ total = 0 ∧ stop.Quiet ∧
      ∀ point, stop = .again point → ∃ rest, point = .pieces rest 0 ∧ payload rest = payload iov)

/-- The call has stored something and does not report it. -/
def Drops (total : Nat) (bytes : List UInt8) (stop : Stop) : Prop :=
    0 < total + bytes.length ∧ stop.Quiet

/-- The loop of `writev` has stored bytes, and reports them just if the condition holds. -/
def Wrote (nonblock : Bool) (iov : List Piece) (total : Nat) (p : Aiwass) (r : Aiwass × Stop) :
    Prop :=
  ∃ bytes, Moves p r.1 bytes [] ∧
    (Flows nonblock p.room (0 < total) iov ∧ Keeps iov total bytes r.2 ∨
      ¬ Flows nonblock p.room (0 < total) iov ∧ Drops total bytes r.2)

open Aiwass

section
variable (nonblock : Bool) (iov : List Piece)

/-- **The loop of `writev`.** -/
theorem writevFrom_spec (total : Nat) (huse : p.inUse = true)
    (hreads : 0 < p.readRefs) (htidy : p.ring.Tidy) :
    Wrote nonblock iov total p (writevFrom nonblock iov total p) := by
  induction iov generalizing total p with
  | nil =>
    refine ⟨[], Moves.refl htidy, Or.inl ⟨?_, Or.inl ⟨rfl, nil_prefix⟩⟩⟩
    intro before v after heq
    exact absurd heq (by simp)
  | cons v rest ih =>
    rw [writevFrom]
    by_cases hdata : v.data = []
    · have hflows :
        Flows nonblock p.room (0 < total) (v :: rest) ↔ Flows nonblock p.room (0 < total) rest := by
        rw [flows_cons, hdata]
        simp
      have hpayload : payload (v :: rest) = payload rest := by rw [payload_cons, hdata, nil_append]
      rw [if_pos (by rw [hdata]; rfl), Wrote, hflows]
      simp only [Keeps, hpayload]
      exact ih total huse hreads htidy
    · rw [if_neg fun h => hdata (length_eq_zero_iff.1 h)]
      by_cases hpass : v.mapped = true ∧ Takes p.room v.data.length
      · obtain ⟨hmapped, htakes⟩ := hpass
        obtain ⟨p', heq, hstores⟩ := linuxPipeWrite_of_takes nonblock huse hreads htidy htakes
        have hpos : 0 < v.data.length := length_pos_iff.2 hdata
        have hlength : (v.data.take (min v.data.length p.room)).length = min v.data.length
          p.room := by
          rw [length_take]
          omega
        have hroom : p'.room = p.room - v.data.length := by
          rw [hstores.room]
          omega
        have hbegun : 0 < total + min v.data.length p.room := by
          have := htakes.1
          omega
        have hflows : Flows nonblock p.room (0 < total) (v :: rest) ↔
            Flows nonblock p'.room (0 < total + min v.data.length p.room) rest := by
          rw [flows_cons, hroom, flows_congr (iff_of_true (Or.inr hdata) hbegun)]
          exact ⟨fun h => h.2 fun _ => ⟨hmapped, htakes⟩,
            fun h => ⟨fun _ _ => ⟨hmapped, Or.inr htakes⟩, fun _ => h⟩⟩
        obtain ⟨bytes, hmore, hrest⟩ := ih (total + min v.data.length p.room)
          (hstores.inUse.trans huse) (hstores.readRefs ▸ hreads) hstores.tidy
        rw [if_neg (not_not.2 hmapped), heq, Wrote, hflows]
        refine ⟨_, hstores.trans hmore,
          hrest.imp (fun ⟨h, hkeeps⟩ => ⟨h, Or.inl ?_⟩) fun ⟨h, hsome, hstop⟩ =>
          ⟨h, ?_, hstop⟩⟩
        · obtain ⟨hstop, hprefix⟩ := hkeeps.resolve_right fun hno => absurd hno.2.1 (by omega)
          refine ⟨by rw [hstop, length_append, hlength, Nat.add_assoc], ?_⟩
          by_cases hall : v.data.length ≤ p.room
          · rw [Nat.min_eq_left hall, take_length]
            exact (prefix_append_right_inj _).2 hprefix
          · rw [hmore.eq_nil (by omega), append_nil]
            exact ( take_prefix _ _).trans (prefix_append _ _)
        · rw [length_append]
          omega
      · -- what has been stored so far is lost
        have hstays : ∀ {stop : Stop}, ¬ (v.mapped = true ∧ nonblock = true) → stop.Quiet →
            (∀ point, stop = .again point → point = .pieces (v :: rest) total) →
            Wrote nonblock (v :: rest) total p (p, stop) := by
          intro stop hno hquiet hagain
          rw [Wrote, flows_stuck hdata hpass]
          refine ⟨[], Moves.refl htidy, ?_⟩
          rcases Nat.eq_zero_or_pos total with rfl | hpos
          · exact Or.inl ⟨fun h => absurd h (Nat.lt_irrefl 0), Or.inr ⟨rfl, rfl, hquiet,
              fun point heq => ⟨_, hagain point heq, rfl⟩⟩⟩
          · exact Or.inr ⟨fun h => hno (h hpos), hpos, hquiet⟩
        by_cases hmapped : v.mapped = true
        · rw [if_neg (not_not.2 hmapped),
            linuxPipeWrite_of_not_takes nonblock huse hreads htidy fun htakes => hpass
              ⟨hmapped, htakes⟩]
          cases nonblock with
          | true =>
            rw [Wrote, flows_stuck hdata hpass]
            refine ⟨[], Moves.refl htidy, Or.inl ⟨fun _ => ⟨hmapped, rfl⟩, ?_⟩⟩
            by_cases htotal : 0 < total
            · exact Or.inl ⟨by simp [htotal], nil_prefix⟩
            · simp only [if_neg htotal]
              exact Or.inr ⟨rfl, by omega, quiet_of_neg (by decide) _, nofun⟩
          | false =>
            generalize p.writable = ready
            cases ready with
            | true => exact hstays (by simp) nofun fun point heq => (Stop.again.inj heq).symm
            | false => exact hstays (by simp) nofun nofun
        · rw [if_pos hmapped]
          exact hstays (fun h => hmapped h.1) (quiet_of_neg (by decide) _) nofun

/-- Without a reader nothing is stored. -/
theorem writevFrom_of_no_reader (hreads : p.readRefs = 0) :
    ∃ errno : Int, errno ≤ 0 ∧ writevFrom nonblock iov 0 p = (p, .done errno []) := by
  induction iov with
  | nil => exact ⟨0, Int.le_refl 0, rfl⟩
  | cons v rest ih =>
    rw [writevFrom]
    split
    · exact ih
    split
    · exact ⟨-14, by decide, rfl⟩
    · rw [linuxPipeWrite_of_no_reader nonblock hreads]
      exact ⟨-32, by decide, rfl⟩

end

/-! ## The loop of `readv` -/

theorem space_cons (v : Space) (rest : List Space) : space (v :: rest) = v.len + space rest := by
  rw [space, space, map_cons, sum_cons]

theorem fills_cons {v : Space} {rest : List Space} :
    Fills nonblock avail writers begun (v :: rest) ↔
      (v.len ≠ 0 → (0 < begun → v.mapped = true) ∧
        (v.mapped = true → avail = 0 → 0 < writers → (nonblock = true ↔ 0 < begun))) ∧
      ((v.len ≠ 0 → v.mapped = true) → v.len ≤ avail →
        Fills nonblock (avail - v.len) writers (begun + v.len) rest) := by
  constructor
  · intro h
    refine ⟨fun hlen => ?_, fun hmapped hle before u after heq hu hall hspace => ?_⟩
    · simpa [space] using h [] v rest rfl hlen (by simp) (Nat.zero_le _)
    · have hu' := h (v :: before) u after (by rw [heq, cons_append]) hu ?_ ?_
      · rw [space_cons, ← Nat.add_assoc] at hu'
        refine ⟨hu'.1, fun hm havail => hu'.2 hm (by omega)⟩
      · intro x hx
        rcases mem_cons.1 hx with rfl | hx
        · exact hmapped
        · exact hall x hx
      · rw [space_cons]
        omega
  · rintro ⟨hfirst, hrest⟩ before u after heq hu hall hspace
    cases before with
    | nil =>
      obtain ⟨rfl, rfl⟩ := cons.inj heq
      simpa [space] using hfirst hu
    | cons v' before =>
      obtain ⟨rfl, rfl⟩ := cons.inj heq
      rw [space_cons] at hspace ⊢
      have hu' := hrest (hall v mem_cons_self) (by omega) before u after rfl hu
        (fun x hx => hall x (mem_cons_of_mem _ hx)) (by omega)
      rw [Nat.add_assoc] at hu'
      exact ⟨hu'.1, fun hm havail => hu'.2 hm (by omega)⟩

/-- Where the loop does not get past a part. -/
theorem fills_stuck {v : Space} {rest : List Space} (hlen : v.len ≠ 0)
    (hstop : v.mapped = true → avail < v.len) :
    Fills nonblock avail writers begun (v :: rest) ↔ (0 < begun → v.mapped = true) ∧
      (v.mapped = true → avail = 0 → 0 < writers → (nonblock = true ↔ 0 < begun)) := by
  rw [fills_cons]
  exact ⟨fun h => h.1 hlen,
    fun h => ⟨fun _ => h, fun hm hle => absurd hle (Nat.not_le.2 (hstop (hm hlen)))⟩⟩

/-- The call delivers what it has taken, or has not taken anything. -/
def Delivers (p : Aiwass) (iov : List Space) (got bytes : List UInt8) (stop : Stop) : Prop :=
  (stop = .done ((got ++ bytes).length : Int) (got ++ bytes) ∧
      (got ++ bytes = [] → space iov ≠ 0 → p.ring.avail = 0 ∧ p.writeRefs = 0)) ∨
    (bytes = [] ∧ got = [] ∧ stop.Quiet ∧ ∀ point, stop ≠ .again point)

/-- The call has taken something and does not deliver it, or says 0 although there are writers. -/
def Loses (p : Aiwass) (iov : List Space) (got bytes : List UInt8) (stop : Stop) : Prop :=
  (0 < (got ++ bytes).length ∧ stop.Quiet) ∨
    (got = [] ∧ bytes = [] ∧ stop = .done 0 [] ∧ space iov ≠ 0 ∧ 0 < p.writeRefs)

/-- The loop of `readv` has taken bytes, and delivers them just if the condition holds. -/
def Took (nonblock : Bool) (iov : List Space) (got : List UInt8) (p : Aiwass) (r : Aiwass × Stop) :
    Prop :=
  ∃ bytes, Moves p r.1 [] bytes ∧
    (Fills nonblock p.ring.avail p.writeRefs got.length iov ∧ Delivers p iov got bytes r.2 ∨
      ¬ Fills nonblock p.ring.avail p.writeRefs got.length iov ∧ Loses p iov got bytes r.2)

/-- **The loop of `readv`.** -/
theorem readvFrom_spec (nonblock : Bool) (iov : List Space) (got : List UInt8)
    (huse : p.inUse = true)
    (htidy : p.ring.Tidy) : Took nonblock iov got p (readvFrom nonblock iov got p) := by
  induction iov generalizing got p with
  | nil =>
    refine ⟨[], Moves.refl htidy, Or.inl ⟨?_, Or.inl ⟨?_, fun _ h => absurd rfl h⟩⟩⟩
    · intro before v after heq
      exact absurd heq (by simp)
    · rw [append_nil]
      rfl
  | cons v rest ih =>
    rw [readvFrom]
    by_cases hlen : v.len = 0
    · have hfills : Fills nonblock p.ring.avail p.writeRefs got.length (v :: rest) ↔
          Fills nonblock p.ring.avail p.writeRefs got.length rest := by
        rw [fills_cons, hlen]
        simp
      have hspace : space (v :: rest) = space rest := by rw [space_cons, hlen, Nat.zero_add]
      rw [if_pos hlen, Took, hfills]
      simp only [Delivers, Loses, hspace]
      exact ih got huse htidy
    · rw [if_neg hlen]
      by_cases hpass : v.mapped = true ∧ v.len ≤ p.ring.avail
      · obtain ⟨hmapped, hle⟩ := hpass
        obtain ⟨p', bytes, heq, hremoves, hlength⟩ :=
          linuxPipeRead_of_avail nonblock huse htidy (by omega) v.len
        have havail := hremoves.avail
        rw [length_nil] at havail
        have hbegun : (got ++ bytes).length = got.length + v.len := by
          rw [length_append]
          omega
        have hgot : got ++ bytes ≠ [] := by
          rw [← length_pos_iff]
          omega
        have hfills : Fills nonblock p.ring.avail p.writeRefs got.length (v :: rest) ↔
            Fills nonblock p'.ring.avail p'.writeRefs (got ++ bytes).length rest := by
          have hrest : p'.ring.avail = p.ring.avail - v.len := by omega
          rw [fills_cons, hrest, hremoves.writeRefs, hbegun]
          exact ⟨fun h => h.2 (fun _ => hmapped) hle,
            fun h => ⟨fun _ => ⟨fun _ => hmapped, fun _ hzero => absurd hzero (by omega)⟩,
              fun _ _ => h⟩⟩
        obtain ⟨more, hmore, hrest⟩ := ih (got ++ bytes) (hremoves.inUse.trans huse) hremoves.tidy
        rw [if_neg (not_not.2 hmapped), heq]
        dsimp only
        rw [if_neg (by omega), Took, hfills]
        refine ⟨_, hremoves.trans hmore,
          hrest.imp (fun ⟨h, hdelivers⟩ => ⟨h, Or.inl ?_⟩) fun ⟨h, hloses⟩ =>
          ⟨h, Or.inl ?_⟩⟩
        · rw [(hdelivers.resolve_right fun hno => hgot hno.2.1).1, ← append_assoc]
          exact ⟨rfl, fun hnil => absurd (append_eq_nil_iff.1 hnil).1 hgot⟩
        · rw [← append_assoc]
          exact hloses.resolve_right fun hno => hgot hno.1
      · rw [Took, fills_stuck hlen fun hmapped => Nat.lt_of_not_le fun hle => hpass ⟨hmapped, hle⟩]
        by_cases hmapped : v.mapped = true
        · rw [if_neg (not_not.2 hmapped)]
          by_cases havail : p.ring.avail = 0
          · rw [linuxPipeRead_of_empty nonblock huse havail]
            refine ⟨[], ?_⟩
            by_cases hwriters : p.writeRefs = 0
            · -- the end of the stream
              rw [if_pos hwriters]
              dsimp only
              rw [if_pos (show ([] : List UInt8).length < v.len from Nat.pos_of_ne_zero hlen)]
              exact ⟨Moves.refl htidy, Or.inl
                ⟨⟨fun _ => hmapped, fun _ _ hpos => absurd hpos (by omega)⟩,
                Or.inl ⟨rfl, fun _ _ => ⟨havail, hwriters⟩⟩⟩⟩
            · have hpos := Nat.pos_of_ne_zero hwriters
              have hspace : space (v :: rest) ≠ 0 := by
                rw [space_cons]
                omega
              have hiff : (0 < got.length → v.mapped = true) ∧ (v.mapped = true → p.ring.avail = 0 →
                  0 < p.writeRefs → (nonblock = true ↔ 0 < got.length)) ↔
                    (nonblock = true ↔ 0 < got.length) :=
                ⟨fun h => h.2 hmapped havail hpos, fun h => ⟨fun _ => hmapped, fun _ _ _ => h⟩⟩
              rw [if_neg hwriters, hiff]
              cases nonblock <;> cases got
              case true.nil =>
                exact ⟨Moves.refl htidy, Or.inr ⟨by simp, Or.inr ⟨rfl, rfl, rfl, hspace, hpos⟩⟩⟩
              case true.cons =>
                exact ⟨Moves.refl htidy, Or.inl ⟨by simp, Or.inl ⟨by simp, by simp⟩⟩⟩
              case false.nil =>
                exact ⟨Moves.refl htidy, Or.inl ⟨by simp, Or.inr ⟨rfl, rfl, nofun, nofun⟩⟩⟩
              case false.cons => exact ⟨Moves.refl htidy, Or.inr ⟨by simp, Or.inl ⟨by simp, nofun⟩⟩⟩
          · obtain ⟨p', bytes, heq, hremoves, hlength⟩ :=
              linuxPipeRead_of_avail nonblock huse htidy (Nat.pos_of_ne_zero havail) v.len
            have hne : bytes ≠ [] := by
              rw [← length_pos_iff]
              omega
            have hshort : ¬ v.len ≤ p.ring.avail := fun hle => hpass ⟨hmapped, hle⟩
            rw [heq]
            dsimp only
            rw [if_pos (by omega)]
            exact ⟨bytes, hremoves, Or.inl ⟨⟨fun _ => hmapped, fun _ hzero => absurd hzero havail⟩,
              Or.inl ⟨rfl, fun hnil => absurd (append_eq_nil_iff.1 hnil).2 hne⟩⟩⟩
        · rw [if_pos hmapped]
          refine ⟨[], Moves.refl htidy, ?_⟩
          cases got with
          | nil => exact Or.inl ⟨by simp [hmapped], Or.inr
            ⟨rfl, rfl, quiet_of_neg (by decide) _, nofun⟩⟩
          | cons b got =>
            exact Or.inr ⟨by simp [hmapped], Or.inl ⟨by simp, quiet_of_neg (by decide) _⟩⟩

/-! ## A call -/

/-- Nothing has been moved where the call goes on. -/
def Pending.Fresh (pd : Pending) : Prop :=
  match pd.point with
  | .start => True
  | .pieces rest total => total = 0 ∧ ∃ table iov, pd.call = .writev table iov ∧
    payload rest = payload iov
  | .spaces .. => False

/-- A call moves what it reports, says 0 at the end only and reports a few bytes as a whole. -/
structure Runs (p : Aiwass) (pd : Pending) (r : Aiwass × Stop) : Prop where
  smooth : pd.Smooth p → Moves p r.1 (pd.call.reported r.2) r.2.received ∧
    (∀ pd', pd.next r.2 = some pd' → pd'.Fresh) ∧
    ∀ got, r.2 = .done 0 got → pd.call.wanted ≠ 0 → p.ring.avail = 0 ∧ p.writeRefs = 0
  rough : ¬ pd.Smooth p → (r.1.inUse = p.inUse ∧ r.1.ring.avail ≠ p.ring.avail ∧ r.2.Quiet) ∨
    (pd.call.wanted ≠ 0 ∧ 0 < p.writeRefs ∧ ∃ got, r.2 = .done 0 got)
  short : ∀ v, pd.call = .write (some v) → v.data.length ≤ kAiwassPipeBuf → ∀ answer got,
    r.2 = .done answer got → 0 ≤ answer → answer = v.data.length

theorem received_done_nil (answer : Int) : (Stop.done answer []).received = [] := by
  rw [Stop.received]
  split <;> rfl

variable {stop : Stop}

theorem Stop.Quiet.received (h : stop.Quiet) : stop.received = [] := by
  cases stop with
  | done answer got => exact if_neg (by have := h answer got rfl; omega)
  | parked | again => rfl

theorem Stop.Quiet.reported (h : stop.Quiet) (c : Call) : c.reported stop = [] := by
  cases stop with
  | done answer got => rw [Call.reported, Int.toNat_of_nonpos (h answer got rfl).le, take_zero]
  | parked | again => rfl

theorem reported_of_read {c : Call} (h : c.side = .read) (stop : Stop) : c.reported stop = [] := by
  have hpayload : c.payload = [] := by
    cases c with
    | write | writev => exact absurd h (by simp [Call.side])
    | read dst => rfl
    | readv table iov => rfl
  cases stop with
  | done answer got => rw [Call.reported, hpayload, take_nil]
  | parked | again => rfl

open Pending

/-- A call that goes on does so from the start, or where it went round. -/
theorem next_fresh (h : ∀ point, stop = .again point → Fresh { pd with point })
    (pd' : Pending) (hnext : pd.next stop = some pd') : pd'.Fresh := by
  cases stop with
  | done answer got => exact absurd hnext (by simp [Pending.next])
  | parked =>
    obtain rfl := Option.some.inj hnext
    trivial
  | again point =>
    obtain rfl := Option.some.inj hnext
    exact h point rfl

/-- A call that has done nothing. -/
theorem Runs.nothing (htidy : p.ring.Tidy) (hsmooth : pd.Smooth p) (hquiet : stop.Quiet)
    (hagain : ∀ point, stop = .again point → Fresh { pd with point }) : Runs p pd (p, stop) := by
  refine ⟨fun _ => ⟨?_, next_fresh hagain, fun got hdone => nomatch hquiet 0 got hdone⟩,
    fun hnot => absurd hsmooth hnot,
    fun _ _ _ answer got hdone hpos => absurd (hquiet answer got hdone) (by omega)⟩
  rw [hquiet.reported, hquiet.received]
  exact Moves.refl htidy

theorem Runs.fails {errno : Int} (htidy : p.ring.Tidy) (hneg : errno < 0) (hsmooth : pd.Smooth p) :
    Runs p pd (p, .done errno []) := Runs.nothing htidy hsmooth (quiet_of_neg hneg _) nofun

section
variable (huse : p.inUse = true) (htidy : p.ring.Tidy)
include huse htidy

/-- The loop of `writev`, from the beginning or from where it goes round with nothing done. -/
theorem runs_of_pieces {table : Bool} {iov rest : List Piece} (hcall : pd.call = .writev table iov)
    (hrest : payload rest = payload iov)
    (hsmooth : pd.Smooth p ↔ (0 < p.readRefs → Flows pd.nonblock p.room (0 < 0) rest)) :
    Runs p pd (writevFrom pd.nonblock rest 0 p) := by
  have hpayload : pd.call.payload = payload rest := by rw [hcall, hrest, Call.payload]
  have hwanted : pd.call.wanted = 0 := by rw [hcall, Call.wanted]
  have hnot : ∀ v, pd.call ≠ .write (some v) := fun v => by simp [hcall]
  by_cases hreads : 0 < p.readRefs
  · have hiff : pd.Smooth p ↔ Flows pd.nonblock p.room (0 < 0) rest :=
      hsmooth.trans ⟨fun h => h hreads, fun h _ => h⟩
    obtain ⟨bytes, hmoves, ⟨hflows, hkeeps⟩ | ⟨hflows, hpos, hquiet⟩⟩ :=
      writevFrom_spec pd.nonblock rest 0 huse hreads htidy
    · refine ⟨fun _ => ?_, fun h => absurd (hiff.2 hflows) h,
        fun v hwrite => absurd hwrite (hnot v)⟩
      rcases hkeeps with ⟨hstop, hprefix⟩ | ⟨rfl, -, hquiet, hagain⟩
      · rw [hstop, Call.reported, hpayload, Int.toNat_natCast, Nat.zero_add,
          ← prefix_iff_eq_take.1 hprefix]
        exact ⟨hmoves, next_fresh nofun, fun _ _ hne => absurd hwanted hne⟩
      · rw [hquiet.reported, hquiet.received]
        refine ⟨hmoves, next_fresh fun point hpoint => ?_, fun _ _ hne => absurd hwanted hne⟩
        obtain ⟨after, rfl, hafter⟩ := hagain point hpoint
        exact ⟨rfl, table, iov, hcall, hafter.trans hrest⟩
    · refine ⟨fun h => absurd (hiff.1 h) hflows, fun _ => Or.inl ?_,
        fun v hwrite => absurd hwrite (hnot v)⟩
      have havail := hmoves.avail
      rw [length_nil] at havail
      exact ⟨hmoves.inUse, by omega, hquiet⟩
  · obtain ⟨errno, hneg, heq⟩ := writevFrom_of_no_reader pd.nonblock rest (p := p) (by omega)
    rw [heq]
    refine ⟨fun _ => ⟨?_, next_fresh nofun, fun _ _ hne => absurd hwanted hne⟩,
      fun hrough => absurd (hsmooth.2 fun h => absurd h hreads) hrough,
        fun v hwrite => absurd hwrite (hnot v)⟩
    rw [received_done_nil, Call.reported, Int.toNat_of_nonpos hneg]
    exact Moves.refl htidy

/-- The loop of `readv`. -/
theorem runs_of_spaces {table : Bool} {iov : List Space} (hcall : pd.call = .readv table iov)
    (hsmooth : pd.Smooth p ↔ Fills pd.nonblock p.ring.avail p.writeRefs 0 iov) :
    Runs p pd (readvFrom pd.nonblock iov [] p) := by
  have hwanted : pd.call.wanted = space iov := by rw [hcall, Call.wanted]
  have hnot : ∀ v, pd.call ≠ .write (some v) := fun v => by simp [hcall]
  obtain ⟨bytes, hmoves, ⟨hfills, hdelivers⟩ | ⟨hfills, hloses⟩⟩ :=
    readvFrom_spec pd.nonblock iov [] huse htidy
  · refine ⟨fun _ => ?_, fun h => absurd (hsmooth.2 hfills) h,
      fun v hwrite => absurd hwrite (hnot v)⟩
    rw [reported_of_read (by rw [hcall]; rfl), hwanted]
    rcases hdelivers with ⟨hstop, hend⟩ | ⟨rfl, -, hquiet, hagain⟩
    · rw [hstop, Stop.received]
      refine ⟨hmoves, next_fresh nofun, fun got hdone => hend ?_⟩
      injection hdone with hzero
      exact length_eq_zero_iff.1 (by omega)
    · rw [hquiet.received]
      exact ⟨hmoves, next_fresh fun point heq => absurd heq (hagain point),
        fun got hdone => nomatch hquiet 0 got hdone⟩
  · refine ⟨fun h => absurd (hsmooth.1 h) hfills, fun _ => ?_,
      fun v hwrite => absurd hwrite (hnot v)⟩
    rcases hloses with ⟨hpos, hquiet⟩ | ⟨-, -, hstop, hspace, hwriters⟩
    · have havail := hmoves.avail
      rw [length_nil] at havail
      rw [nil_append] at hpos
      exact Or.inl ⟨hmoves.inUse, by omega, hquiet⟩
    · exact Or.inr ⟨by rw [hwanted]; exact hspace, hwriters, [], hstop⟩

/-- A plain write. -/
theorem runs_of_write {src : Option Piece} (hcall : pd.call = .write src)
    (hpoint : pd.point = .start) : Runs p pd (p.start pd.nonblock (.write src)) := by
  have hsmooth : pd.Smooth p := by
    rw [Smooth, hpoint, hcall]
    trivial
  rw [start]
  split
  · exact Runs.fails htidy (by decide) hsmooth
  by_cases hreads : p.readRefs = 0
  · rw [linuxPipeWrite_of_no_reader _ hreads]
    exact Runs.fails htidy (by decide) hsmooth
  cases src with
  | none => exact Runs.fails htidy (by decide) hsmooth
  | some v =>
    rw [Option.map_some]
    by_cases htakes : Takes p.room v.data.length
    · obtain ⟨p', heq, hmoves⟩ :=
        linuxPipeWrite_of_takes pd.nonblock huse (Nat.pos_of_ne_zero hreads) htidy htakes
      have hpayload : pd.call.payload = v.data := by
        rw [hcall, Call.payload, Option.toList_some]
        exact append_nil _
      rw [heq]
      refine ⟨fun _ =>
        ⟨?_, next_fresh nofun, fun _ _ hne => absurd (by rw [hcall, Call.wanted]) hne⟩,
        fun hnot => absurd hsmooth hnot, fun v' hwrite hshort answer got hdone _ => ?_⟩
      · rw [Call.reported, hpayload]
        exact hmoves
      · obtain rfl : v = v' := by simpa [hcall] using hwrite
        injection hdone with hanswer
        have := htakes.2 hshort
        omega
    · rw [linuxPipeWrite_of_not_takes pd.nonblock huse (Nat.pos_of_ne_zero hreads) htidy htakes]
      generalize p.writable = ready
      cases pd.nonblock with
      | true => exact Runs.fails htidy (by decide) hsmooth
      | false =>
        cases ready with
        | true => exact Runs.nothing htidy hsmooth nofun fun point heq =>
          Stop.again.inj heq ▸ trivial
        | false => exact Runs.nothing htidy hsmooth nofun nofun

/-- A plain read. -/
theorem runs_of_read {dst : Space} (hcall : pd.call = .read dst) (hpoint : pd.point = .start) :
    Runs p pd (p.start pd.nonblock (.read dst)) := by
  have hsmooth : pd.Smooth p := by
    rw [Smooth, hpoint, hcall]
    trivial
  have hmoved : ∀ {p' : Aiwass} {bytes : List UInt8}, Moves p p' [] bytes →
      (bytes = [] → dst.len ≠ 0 → p.ring.avail = 0 ∧ p.writeRefs = 0) →
      Runs p pd (p', .done bytes.length bytes) := by
    intro p' bytes hmoves hend
    refine ⟨fun _ => ?_, fun hnot => absurd hsmooth hnot,
      fun v hwrite => nomatch hcall.symm.trans hwrite⟩
    rw [reported_of_read (by rw [hcall]; rfl), hcall]
    refine ⟨hmoves, next_fresh nofun, fun got hdone => hend ?_⟩
    injection hdone with hzero
    exact length_eq_zero_iff.1 (by omega)
  rw [start]
  split
  · exact Runs.fails htidy (by decide) hsmooth
  by_cases havail : p.ring.avail = 0
  · rw [linuxPipeRead_of_empty _ huse havail]
    by_cases hwriters : p.writeRefs = 0
    · rw [if_pos hwriters]
      exact hmoved (Moves.refl htidy) fun _ _ => ⟨havail, hwriters⟩
    · rw [if_neg hwriters]
      cases pd.nonblock with
      | true => exact Runs.fails htidy (by decide) hsmooth
      | false => exact Runs.nothing htidy hsmooth nofun nofun
  · obtain ⟨p', bytes, heq, hmoves, hlength⟩ :=
      linuxPipeRead_of_avail pd.nonblock huse htidy (Nat.pos_of_ne_zero havail) dst.len
    rw [heq]
    refine hmoved hmoves fun hnil hne => ?_
    rw [hnil, length_nil] at hlength
    omega

/-- **A call.** -/
theorem exec_runs (hfresh : pd.Fresh) : Runs p pd (p.exec pd.nonblock pd.call pd.point) := by
  cases hpoint : pd.point with
  | start =>
    rw [exec]
    cases hcall : pd.call with
    | write src => exact runs_of_write huse htidy hcall hpoint
    | read dst => exact runs_of_read huse htidy hcall hpoint
    | writev table iov =>
      have hiff : pd.Smooth p ↔ (table = true → iov.length ≤ kMaxIov → 0 < p.readRefs →
          Flows pd.nonblock p.room False iov) := by
        rw [Smooth, hpoint, hcall]
      rw [start]
      split
      next hmany => exact Runs.fails htidy (by decide) (hiff.2 fun _ hle => absurd hle (by omega))
      split
      next htable => exact Runs.fails htidy (by decide) (hiff.2 fun hyes => absurd hyes htable)
      next htable =>
        refine runs_of_pieces huse htidy hcall rfl (hiff.trans ?_)
        have hbegun : Flows pd.nonblock p.room False iov ↔ Flows pd.nonblock p.room (0 < 0) iov :=
          flows_congr (iff_of_false id (Nat.lt_irrefl 0))
        exact ⟨fun h hreads => hbegun.1 (h (not_not.1 htable) (by omega) hreads),
          fun h _ _ hreads => hbegun.2 (h hreads)⟩
    | readv table iov =>
      have hiff : pd.Smooth p ↔ (table = true → iov.length ≤ kMaxIov →
          Fills pd.nonblock p.ring.avail p.writeRefs 0 iov) := by
        rw [Smooth, hpoint, hcall]
      rw [start]
      split
      next hmany => exact Runs.fails htidy (by decide) (hiff.2 fun _ hle => absurd hle (by omega))
      split
      next htable => exact Runs.fails htidy (by decide) (hiff.2 fun hyes => absurd hyes htable)
      next htable =>
        refine runs_of_spaces huse htidy hcall (hiff.trans ?_)
        exact ⟨fun h => h (not_not.1 htable) (by omega), fun h _ _ => h⟩
  | pieces rest total =>
    rw [Fresh, hpoint] at hfresh
    obtain ⟨rfl, table, iov, hcall, hrest⟩ := hfresh
    refine runs_of_pieces huse htidy hcall hrest ?_
    rw [Smooth, hpoint]
  | spaces rest got =>
    rw [Fresh, hpoint] at hfresh
    exact hfresh.elim

end

end IndexOS.Pipes
