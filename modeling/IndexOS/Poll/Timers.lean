import IndexOS.Poll.Readiness

/-!
# Timers

`timerfd_settime` counts the time it is given in ticks of the counter, and a timer that is not armed
is one whose time is 0.  A time of less than a tick becomes 0 as well: an absolute one is then never
due, and a timer with such an interval expires once.

* `TimerFd.settime`, `TimerFd.gettime` — the calls;
* `Setting.Serves` — what is asked of a timer when it is read, and of its first expiry;
* `serves_of_sure` — it is so if neither time is below a tick and the counter does not run over;
  `sub_tick_never` — a timer for the first nanosecond.
-/

set_option autoImplicit false

namespace IndexOS.Poll

structure Timespec where
  sec : UInt64
  nsec : UInt64
deriving DecidableEq

structure Itimerspec where
  interval : Timespec
  value : Timespec

namespace Timespec

def Valid (t : Timespec) : Prop := t.sec.toNat < 2 ^ 32 ∧ t.nsec.toNat < 10 ^ 9

/-- The lambda `ticks` of `timerfd_settime`. -/
def ticks (freq : UInt64) (t : Timespec) : UInt64 := t.sec * freq + t.nsec * freq / 1000000000

def ofTicks (freq n : UInt64) : Timespec := ⟨n / freq, n % freq * 1000000000 / freq⟩

/-- The time in ticks, times 10 ^ 9. -/
def exact (freq : UInt64) (t : Timespec) : Nat := (t.sec.toNat * 10 ^ 9 + t.nsec.toNat) * freq.toNat

end Timespec

/-- `cntfrq_el0`, if it has been set. -/
def frequency (cntfrq : UInt64) : UInt64 := if cntfrq = 0 then 62500000 else cntfrq

namespace TimerFd

def settime (t : TimerFd) (cntfrq now : UInt64) (abstime : Bool) (its : Itimerspec) : TimerFd :=
  if its.value.sec = 0 ∧ its.value.nsec = 0 then { t with expireCnt := 0, intervalCnt := 0 }
  else
    let vt := its.value.ticks (frequency cntfrq)
    { t with
      expireCnt := if abstime then vt else now + vt
      intervalCnt := its.interval.ticks (frequency cntfrq) }

def gettime (t : TimerFd) (cntfrq now : UInt64) : Itimerspec :=
  let rem := if now < t.expireCnt then t.expireCnt - now else 0
  ⟨.ofTicks (frequency cntfrq) t.intervalCnt, .ofTicks (frequency cntfrq) rem⟩

/-- The timer after it has been read at these times, and the sum of the counts. -/
def readAll : TimerFd → List UInt64 → TimerFd × Nat
  | t, [] => (t, 0)
  | t, now :: rest =>
    ((readAll (t.read now).1 rest).1, (t.count now).toNat + (readAll (t.read now).1 rest).2)

end TimerFd

/-- A call of `timerfd_settime`, with the frequency of the counter and its value at the call. -/
structure Setting where
  before : TimerFd
  freq : UInt64
  start : UInt64
  abstime : Bool
  its : Itimerspec

namespace Setting

variable (c : Setting)

/-- The calls that are considered. -/
structure Valid : Prop where
  freq : 1000000 ≤ c.freq.toNat ∧ c.freq.toNat ≤ 1000000000
  value : c.its.value.Valid
  interval : c.its.interval.Valid

def timer : TimerFd := c.before.settime c.freq c.start c.abstime c.its

/-- The time that is asked for, in ticks times 10 ^ 9. -/
def requested : Nat := (if c.abstime then 0 else c.start.toNat * 10 ^ 9) + c.its.value.exact c.freq

def periodic : Prop := c.its.interval ≠ ⟨0, 0⟩

/-- The expirations are due at the tick of the requested time, and then every interval, which is cut
to whole ticks: one of a tick and a half expires every tick. -/
def Due (k now : Nat) : Prop :=
  (c.periodic ∨ k = 0) ∧ c.requested / 10 ^ 9 + k * (c.its.interval.exact c.freq / 10 ^ 9) ≤ now

/-- **What is asked of a timer** that has been read at the times `ts` and is read again. -/
structure Serves (ts : List UInt64) (now : UInt64) : Prop where
  armed : c.timer.expireCnt ≠ 0
  onTime : ∀ t : UInt64, c.start ≤ t → (c.requested ≤ t.toNat * 10 ^ 9 → c.timer.expired t = true) ∧
    (c.timer.expired t = true → c.requested < (t.toNat + 1) * 10 ^ 9)
  count : ((c.timer.readAll ts).1.read now).2 = .gives 8 → 1 ≤ (c.timer.readAll ts).1.count now
  next : ((c.timer.readAll ts).1.read now).2 = .gives 8 → c.periodic →
    now < ((c.timer.readAll ts).1.read now).1.expireCnt
  sum : ∀ k, k < (c.timer.readAll ts).2 + ((c.timer.readAll ts).1.count now).toNat ↔
    c.Due k now.toNat
  stays : c.periodic → (c.timer.readAll ts).1.intervalCnt ≠ 0 ∧ (c.timer.readAll ts).1.expireCnt ≠ 0
  remaining : (c.timer.readAll ts).1.expireCnt ≠ 0 → (c.timer.readAll ts).1.expired now = false →
    ((c.timer.readAll ts).1.gettime c.freq now).value ≠ ⟨0, 0⟩

/-- No time is below a tick, and none that is counted is too large for the counter. -/
structure Sure (ts : List UInt64) : Prop where
  value : 10 ^ 9 ≤ c.requested
  interval : c.periodic → 10 ^ 9 ≤ c.its.interval.exact c.freq
  range : c.requested < 2 ^ 64 * 10 ^ 9
  room : ∀ t ∈ ts, t.toNat + c.its.interval.exact c.freq / 10 ^ 9 < 2 ^ 64

end Setting

/-! ## In ticks -/

theorem frequency_eq {f : UInt64} (h : 1000000 ≤ f.toNat) : frequency f = f := by
  refine if_neg fun hzero => ?_
  rw [hzero] at h
  exact absurd h (by decide)

theorem Timespec.ticks_toNat {f : UInt64} {t : Timespec} (hf : f.toNat ≤ 1000000000) (h : t.Valid) :
    (t.ticks f).toNat = t.exact f / 10 ^ 9 := by
  have hsec : t.sec.toNat * f.toNat ≤ 2 ^ 32 * 1000000000 := Nat.mul_le_mul h.1.le hf
  have hnsec : t.nsec.toNat * f.toNat ≤ 10 ^ 9 * 1000000000 := Nat.mul_le_mul h.2.le hf
  have hbillion : (1000000000 : UInt64).toNat = 10 ^ 9 := rfl
  rw [ticks, exact, Nat.add_mul, Nat.mul_right_comm, UInt64.toNat_add, UInt64.toNat_div,
    UInt64.toNat_mul, UInt64.toNat_mul, hbillion]
  omega

/-- Less than a second is at least a nanosecond. -/
theorem Timespec.ofTicks_ne_zero {f n : UInt64} (hf : 0 < f.toNat ∧ f.toNat ≤ 1000000000)
    (hn : n ≠ 0) : ofTicks f n ≠ ⟨0, 0⟩ := by
  intro h
  obtain ⟨hsec, hnsec⟩ := mk.inj h
  have hsec' : n.toNat / f.toNat = 0 :=
    (UInt64.toNat_div n f).symm.trans (congrArg UInt64.toNat hsec)
  have hlt : n.toNat < f.toNat := by
    rcases Nat.div_eq_zero_iff.1 hsec' with h0 | h0
    · omega
    · exact h0
  have hbillion : (1000000000 : UInt64).toNat = 10 ^ 9 := rfl
  have hnsec' := congrArg UInt64.toNat hnsec
  rw [UInt64.toNat_div, UInt64.toNat_mul, UInt64.toNat_mod, hbillion, Nat.mod_eq_of_lt hlt,
    Nat.mod_eq_of_lt (by omega)] at hnsec'
  have hpos : 0 < n.toNat := Nat.pos_of_ne_zero fun h0 => hn (UInt64.toNat_inj.1 h0)
  rcases Nat.div_eq_zero_iff.1 hnsec' with h0 | h0 <;> omega

/-! ## Reading -/

variable {first period n : Nat} {t : TimerFd} {last now : UInt64}

/-- The timer has expired `n` times by the time `last`. -/
structure Counted (first period : Nat) (t : TimerFd) (n : Nat) (last : UInt64) : Prop where
  interval : t.intervalCnt.toNat = period
  next : period ≠ 0 → t.expireCnt.toNat = first + n * period
  once : period = 0 → n = 0 ∧ t.expireCnt.toNat = first ∨ n = 1 ∧ t.expireCnt.toNat = 0
  past : 0 < n → first + n * period ≤ last.toNat + period

/-- What one read does. -/
theorem Counted.read (h : Counted first period t n last) (hfirst : 0 < first) (hlast : last ≤ now)
    (hroom : now.toNat + period < 2 ^ 64) :
    Counted first period (t.read now).1 (n + (t.count now).toNat) now ∧
      (period ≠ 0 → now.toNat < first + (n + (t.count now).toNat) * period) ∧
      (period = 0 → first ≤ now.toNat → n + (t.count now).toNat = 1) := by
  have hinterval : t.intervalCnt = 0 ↔ period = 0 := by
    rw [← h.interval, ← UInt64.toNat_inj]
    rfl
  have hcount := t.count_toNat now
  simp only [TimerFd.read, TimerFd.expired, hinterval, h.interval, decide_eq_true_eq] at hcount ⊢
  by_cases hexpired : t.expireCnt ≠ 0 ∧ t.expireCnt ≤ now
  · have hle : t.expireCnt.toNat ≤ now.toNat := hexpired.2
    rw [if_pos hexpired] at hcount
    rw [if_neg (not_not.2 hexpired)]
    by_cases hperiod : period = 0
    · have hne : t.expireCnt.toNat ≠ 0 := fun h0 => hexpired.1 (UInt64.toNat_inj.1 h0)
      have hn := h.once hperiod
      rw [if_pos hperiod] at hcount ⊢
      rw [hcount, hperiod]
      exact ⟨⟨h.interval.trans hperiod, by simp,
        fun _ => .inr ⟨by omega, rfl⟩, by omega⟩, by simp, by omega⟩
    · have hnext := h.next hperiod
      rw [if_neg hperiod] at hcount ⊢
      have hdiv := Nat.div_mul_le_self (now.toNat - t.expireCnt.toNat) period
      have hmod := Nat.lt_div_mul_add (a := now.toNat - t.expireCnt.toNat)
        (Nat.pos_of_ne_zero hperiod)
      have hmul : first + (n + (t.count now).toNat) * period =
          t.expireCnt.toNat + ((now.toNat - t.expireCnt.toNat) / period * period + period) := by
        rw [hcount, Nat.add_mul, Nat.add_mul, Nat.one_mul]
        omega
      have hset : (t.expireCnt + t.count now * t.intervalCnt).toNat =
          first + (n + (t.count now).toNat) * period := by
        rw [UInt64.toNat_add, UInt64.toNat_mul, h.interval, hmul, hcount, Nat.add_mul]
        omega
      exact ⟨⟨h.interval, fun _ => hset, fun h0 => absurd h0 hperiod, by omega⟩, by omega,
        fun h0 => absurd h0 hperiod⟩
  · have hlt : t.expireCnt.toNat ≠ 0 → now.toNat < t.expireCnt.toNat := fun h0 =>
      not_le.1 fun hle => hexpired ⟨fun hzero => h0 (congrArg UInt64.toNat hzero), hle⟩
    have hle : last.toNat ≤ now.toNat := hlast
    have hpast := h.past
    have hnext := h.next
    have honce := h.once
    rw [if_neg hexpired] at hcount
    rw [if_pos hexpired, hcount, Nat.add_zero]
    exact ⟨⟨h.interval, h.next, h.once, by omega⟩, by omega, by omega⟩

/-- The reads, one after another. -/
theorem Counted.readAll {ts : List UInt64} (h : Counted first period t n last) (hfirst : 0 < first)
    (hsorted : (last :: (ts ++ [now])).Pairwise (· ≤ ·))
    (hroom : ∀ t ∈ ts, t.toNat + period < 2 ^ 64) :
    Counted first period (t.readAll ts).1 (n + (t.readAll ts).2) now := by
  obtain ⟨hlast, hrest⟩ := List.pairwise_cons.1 hsorted
  induction ts generalizing t n last with
  | nil =>
    have hle : last.toNat ≤ now.toNat := hlast now (by simp)
    exact ⟨h.interval, h.next, h.once, fun hn => (h.past hn).trans (by omega)⟩
  | cons time ts ih =>
    have hread := h.read hfirst (hlast time (by simp)) (hroom time (by simp))
    rw [TimerFd.readAll, ← Nat.add_assoc]
    obtain ⟨hfrom, htail⟩ := List.pairwise_cons.1 hrest
    exact ih hread.1 hrest (fun t ht => hroom t (by simp [ht])) hfrom htail

/-! ## The timer that was set -/

section
variable {c : Setting} {ts : List UInt64} (hsure : c.Sure ts)
include hsure

theorem Setting.Sure.counted (hc : c.Valid) (hvalue : c.its.value ≠ ⟨0, 0⟩) :
    Counted (c.requested / 10 ^ 9) (c.its.interval.exact c.freq / 10 ^ 9) c.timer 0 c.start := by
  have hdisarm : ¬ (c.its.value.sec = 0 ∧ c.its.value.nsec = 0) := fun h =>
    hvalue (congrArg₂ Timespec.mk h.1 h.2)
  have hticks := Timespec.ticks_toNat hc.freq.2 hc.value
  have hrange := hsure.range
  rw [Setting.requested] at hrange ⊢
  rw [Setting.timer, TimerFd.settime, frequency_eq hc.freq.1, if_neg hdisarm]
  refine ⟨Timespec.ticks_toNat hc.freq.2 hc.interval, fun _ => ?_,
    fun _ => .inl ⟨rfl, ?_⟩, by omega⟩
  all_goals
    cases habs : c.abstime <;>
      simp only [habs, Bool.false_eq_true, if_false, if_true, UInt64.toNat_add, hticks] at hrange ⊢
        <;> omega

theorem Setting.Sure.periodic_iff : c.periodic ↔ c.its.interval.exact c.freq / 10 ^ 9 ≠ 0 := by
  constructor
  · intro h
    have := hsure.interval h
    omega
  · intro h hzero
    rw [hzero] at h
    exact h (by simp [Timespec.exact])

end

/-- **Main theorem.**  A timer that is set to a time of at least a tick, with an interval of none or
at least a tick, is armed, expires on time and counts every expiry once, whenever it is read. -/
theorem serves_of_sure (c : Setting) (ts : List UInt64) (now : UInt64) (hc : c.Valid)
    (hvalue : c.its.value ≠ ⟨0, 0⟩) (hsorted : (c.start :: (ts ++ [now])).Pairwise (· ≤ ·))
    (hsure : c.Sure (ts ++ [now])) : c.Serves ts now := by
  have hfirst : 0 < c.requested / 10 ^ 9 := Nat.div_pos hsure.value (by decide)
  have hset := hsure.counted hc hvalue
  have hreads := hset.readAll hfirst hsorted fun t ht => hsure.room t (by simp [ht])
  have hperiodic := hsure.periodic_iff
  rw [Nat.zero_add] at hreads
  obtain ⟨hafter, hnext, honce⟩ :=
    hreads.read hfirst (UInt64.le_refl now) (hsure.room now (by simp))
  have hexpire : c.timer.expireCnt.toNat = c.requested / 10 ^ 9 := by
    have := hset.next
    have := hset.once
    omega
  refine ⟨?armed, ?onTime, ?count, ?next, ?sum, ?stays, ?remaining⟩
  case armed =>
    intro h
    rw [h] at hexpire
    exact hfirst.ne hexpire
  case onTime =>
    intro t _
    simp only [TimerFd.expired, decide_eq_true_eq, UInt64.le_iff_toNat_le, ne_eq,
      ← UInt64.toNat_inj, hexpire]
    change (_ → ¬ _ = 0 ∧ _) ∧ (¬ _ = 0 ∧ _ → _)
    omega
  case count =>
    intro h
    rw [TimerFd.read] at h
    simp only [ite_eq_right_iff, reduceCtorEq, imp_false] at h
    rw [UInt64.le_iff_toNat_le]
    exact Nat.pos_of_ne_zero fun h0 => h (UInt64.toNat_inj.1 h0)
  case next =>
    intro _ h
    rw [UInt64.lt_iff_toNat_lt, hafter.next (hperiodic.1 h)]
    exact hnext (hperiodic.1 h)
  case sum =>
    intro k
    rw [Setting.Due, hperiodic]
    have hpast := hafter.past
    constructor
    · intro hk
      have hmul := Nat.mul_le_mul_right (c.its.interval.exact c.freq / 10 ^ 9)
        (Nat.succ_le_of_lt hk)
      rw [Nat.succ_mul] at hmul
      have := hafter.once
      omega
    · rintro ⟨hk, hdue⟩
      by_cases hperiod : c.its.interval.exact c.freq / 10 ^ 9 = 0
      · rw [hperiod] at hdue hk
        have := honce hperiod
        omega
      · have := hnext hperiod
        exact Nat.lt_of_mul_lt_mul_right (a := c.its.interval.exact c.freq / 10 ^ 9) (by omega)
  case stays =>
    intro h
    have hperiod := hperiodic.1 h
    constructor
    · intro h0
      exact hperiod (hreads.interval.symm.trans (congrArg UInt64.toNat h0))
    · intro h0
      have := (hreads.next hperiod).symm.trans (congrArg UInt64.toNat h0)
      change _ = 0 at this
      omega
  case remaining =>
    intro hne hexpired
    have hlt : now < (c.timer.readAll ts).1.expireCnt := by
      simpa [TimerFd.expired, hne] using hexpired
    rw [TimerFd.gettime, frequency_eq hc.freq.1]
    refine Timespec.ofTicks_ne_zero ⟨by have := hc.freq.1; omega, hc.freq.2⟩ ?_
    rw [if_pos hlt]
    intro h0
    have hsub := UInt64.toNat_sub_of_le _ _ (UInt64.le_of_lt hlt)
    rw [h0] at hsub
    exact Nat.sub_ne_zero_of_lt hlt hsub.symm

/-- A second from now, and then every second. -/
def everySecond : Setting := ⟨{}, 1000000, 0, false, ⟨1, 0⟩, ⟨1, 0⟩⟩

theorem everySecond_serves : everySecond.Serves [1500000] 2500000 := by
  have hroom : ∀ t ∈ [(1500000 : UInt64)] ++ [2500000],
      t.toNat + everySecond.its.interval.exact everySecond.freq / 10 ^ 9 < 2 ^ 64 :=
    List.forall_mem_cons.2 ⟨by decide, List.forall_mem_singleton.2 (by decide)⟩
  exact serves_of_sure everySecond [1500000] 2500000
    ⟨by decide, ⟨by decide, by decide⟩, ⟨by decide, by decide⟩⟩ (by decide) (by decide)
    ⟨by decide, fun _ => by decide, by decide, hroom⟩

/-- The first nanosecond of the counter. -/
def firstNanosecond : Setting := ⟨{}, 1000000, 0, true, ⟨0, 0⟩, ⟨0, 1⟩⟩

theorem sub_tick_never : firstNanosecond.Valid ∧ firstNanosecond.its.value ≠ ⟨0, 0⟩ ∧
    (firstNanosecond.start :: ([] ++ [1])).Pairwise (· ≤ ·) ∧ ¬ firstNanosecond.Serves [] 1 :=
  ⟨⟨by decide, ⟨by decide, by decide⟩, ⟨by decide, by decide⟩⟩, by decide, by decide,
    fun h => h.armed rfl⟩

end IndexOS.Poll
