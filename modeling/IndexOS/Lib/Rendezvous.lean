import IndexOS.Lib.Traces

/-!
# Sleeping until somebody has something

A consumer attempts an operation; when there is nothing for it yet it goes to sleep, and the attempt
and the going to sleep are two steps, so that producers act in between.  A producer also takes two
steps: it publishes, and later each of its wake-ups goes through.  Between the two the wake-up is
pending.

* `Protocol` — what the operations, the publications and the wake-ups are, and which operations look
  once more, in the same step, before they sleep;
* `Config`, `Event`, `step`, `run` — one consumer and any number of producers, interleaved;
* `Lost` — the consumer sleeps, its operation would complete, and no wake-up is pending;
* `Covered` — the invariant: a consumer that sleeps although its operation would complete has a
  wake-up coming;
* `covered_step`, `covered_run` — it is kept by every step that is `Safe`.
-/

set_option autoImplicit false

namespace IndexOS.Rendezvous

/-- Operations `C` with results `R` on a world `Ω`, publications `A` and wake-ups `W`. -/
structure Protocol (Ω C R A W : Type) where
  /-- The operation is tried once: its result, the world after it and the wake-ups it issues itself,
  or nothing when it has to wait. -/
  attempt : C → Ω → Option (R × Ω × List W)
  /-- What an operation looks at in the step in which it goes to sleep, where it does. -/
  probe : C → Option (Ω → Bool)
  /-- A producer's first step, and the wake-ups it owes from then on. -/
  publish : A → Ω → Ω × List W
  /-- The publication can happen while a consumer is in the operation: it does not take away what
  the consumer itself holds. -/
  leaves : A → C → Bool
  /-- The wake-up reaches who sleeps in the operation. -/
  hits : W → C → Bool

/-- Where the consumer is. -/
inductive Consumer (C : Type) where
  | away
  | calling (c : C)
  /-- the attempt found nothing, and the consumer is on its way to sleep -/
  | refused (c : C)
  | asleep (c : C)
deriving DecidableEq

/-- The operation the consumer is in. -/
def Consumer.op {C : Type} : Consumer C → Option C
  | .away => none
  | .calling c => some c
  | .refused c => some c
  | .asleep c => some c

structure Config (Ω C W : Type) where
  world : Ω
  consumer : Consumer C
  /-- Wake-ups that are owed and have not gone through. -/
  pending : List W

inductive Event (C A W : Type) where
  | call (c : C)
  | attempt
  | sleep
  | publish (a : A)
  | wake (w : W)

variable {Ω C R A W : Type} (P : Protocol Ω C R A W)

/-- The operation would complete if it were tried now. -/
def Protocol.completes (c : C) (ω : Ω) : Bool := (P.attempt c ω).isSome

/-- The consumer sleeps for good: its operation would complete and nobody is going to wake it. -/
def Lost (s : Config Ω C W) : Prop :=
  ∃ c, s.consumer = .asleep c ∧ P.completes c s.world = true ∧ s.pending = []

/-- Some pending wake-up reaches who sleeps in `c`. -/
def Owed (s : Config Ω C W) (c : C) : Prop := ∃ w ∈ s.pending, P.hits w c = true

/-- A consumer that sleeps although its operation would complete has a wake-up coming. -/
def Covered (s : Config Ω C W) : Prop :=
  ∀ c, s.consumer = .asleep c → P.completes c s.world = true → Owed P s c

/-- Where an operation looks once more before it sleeps, it sees everything that completes it. -/
def Protocol.ProbesSee : Prop :=
  ∀ c ready, P.probe c = some ready → ∀ ω, P.completes c ω = true → ready ω = true

/-- Whatever the publication completes, it announces. -/
def Protocol.Announced (a : A) : Prop :=
  ∀ c ω, P.leaves a c = true → P.completes c ω = false → P.completes c (P.publish a ω).1 = true →
    ∃ w ∈ (P.publish a ω).2, P.hits w c = true

/-- What a step has to meet: an operation that does not look once more goes to sleep only when it
would still wait or is going to be woken, and what a publication completes for a sleeper it
announces, unless the sleeper is going to be woken anyway. -/
def Safe (s : Config Ω C W) : Event C A W → Prop
  | .sleep =>
    ∀ c, s.consumer = .refused c → P.probe c = none → P.completes c s.world = true → Owed P s c
  | .publish a =>
    P.Announced a ∨
      ∀ c, s.consumer = .asleep c → P.completes c s.world = false →
        P.completes c (P.publish a s.world).1 = true → Owed P s c
  | _ => True

section
variable {P} {s : Config Ω C W}

theorem Covered.not_lost (h : Covered P s) : ¬ Lost P s := by
  rintro ⟨c, hasleep, hdone, hpending⟩
  obtain ⟨w, hw, -⟩ := h c hasleep hdone
  rw [hpending] at hw
  cases hw

theorem covered_of_awake (h : ∀ c, s.consumer ≠ .asleep c) : Covered P s :=
  fun c hc => absurd hc (h c)

end

variable [DecidableEq W]

/-- One step.  An event that is not possible changes nothing. -/
def step (s : Config Ω C W) : Event C A W → Config Ω C W
  | .call c =>
    match s.consumer with
    | .away => { s with consumer := .calling c }
    | _ => s
  | .attempt =>
    match s.consumer with
    | .calling c =>
      match P.attempt c s.world with
      | some (_, ω, ws) => { world := ω, consumer := .away, pending := s.pending ++ ws }
      | none => { s with consumer := .refused c }
    | _ => s
  | .sleep =>
    match s.consumer with
    | .refused c =>
      match P.probe c with
      | some ready => { s with consumer := if ready s.world then .calling c else .asleep c }
      | none => { s with consumer := .asleep c }
    | _ => s
  | .publish a =>
    if s.consumer.op.all (P.leaves a) then
      { s with world := (P.publish a s.world).1, pending := s.pending ++ (P.publish a s.world).2 }
    else s
  | .wake w =>
    if w ∈ s.pending then
      { s with
        consumer :=
          match s.consumer with
          | .asleep c => if P.hits w c then .calling c else .asleep c
          | other => other
        pending := s.pending.erase w }
    else s

abbrev run : Config Ω C W → List (Event C A W) → Config Ω C W := Traces.run (step P)

/-- Every step of the run meets `M` in the state in which it is taken. -/
abbrev RunMeets : (Config Ω C W → Event C A W → Prop) → Config Ω C W → List (Event C A W) → Prop :=
  Traces.EachStep (step P)

variable {P} {s : Config Ω C W} {e : Event C A W}

/-- The consumer is only in operations that it has called. -/
theorem op_step {c : C} (h : (step P s e).consumer.op = some c) :
    s.consumer.op = some c ∨ e = .call c := by
  cases e <;> simp only [step] at h <;> grind [Consumer.op]

theorem covered_attempt (h : Covered P s) : Covered P (step P s .attempt) := by
  rw [step]
  split
  · split <;> exact covered_of_awake (by simp)
  · exact h

theorem covered_sleep (hP : P.ProbesSee) (h : Covered P s) (hsafe : Safe P s .sleep) :
    Covered P (step P s .sleep) := by
  rw [step]
  split
  next c hc =>
    cases hprobe : P.probe c with
    | some ready =>
      intro d hd hdone
      by_cases hready : ready s.world = true
      · simp [hready] at hd
      · simp only [hready, Bool.false_eq_true, if_false, Consumer.asleep.injEq] at hd
        subst hd
        exact absurd (hP c ready hprobe s.world hdone) hready
    | none =>
      intro d hd hdone
      simp only [Consumer.asleep.injEq] at hd
      subst hd
      exact hsafe c hc hprobe hdone
  · exact h

theorem covered_publish {a : A} (h : Covered P s) (hsafe : Safe P s (.publish a)) :
    Covered P (step P s (.publish a)) := by
  rw [step]
  split
  next hleaves =>
    intro c hasleep hdone
    have hleave : P.leaves a c = true := by
      simpa [show s.consumer = .asleep c from hasleep, Consumer.op] using hleaves
    have hkeep (howed : Owed P s c) : Owed P { s with
        world := (P.publish a s.world).1, pending := s.pending ++ (P.publish a s.world).2 } c := by
      obtain ⟨w, hw, hhit⟩ := howed
      exact ⟨w, List.mem_append_left _ hw, hhit⟩
    cases hbefore : P.completes c s.world with
    | true => exact hkeep (h c hasleep hbefore)
    | false =>
      rcases hsafe with hann | howed
      · obtain ⟨w, hw, hhit⟩ := hann c s.world hleave hbefore hdone
        exact ⟨w, List.mem_append_right _ hw, hhit⟩
      · exact hkeep (howed c hasleep hbefore hdone)
  · exact h

theorem covered_wake {w : W} (h : Covered P s) : Covered P (step P s (.wake w)) := by
  rw [step]
  split
  next hw =>
    intro c hasleep hdone
    cases hcons : s.consumer with
    | asleep d =>
      rw [hcons] at hasleep
      by_cases hhit : P.hits w d = true
      · simp [hhit] at hasleep
      · simp only [hhit, Bool.false_eq_true, if_false, Consumer.asleep.injEq] at hasleep
        subst hasleep
        -- the wake-up that went through was for somebody else, and the one that is owed is there
        obtain ⟨w', hw', hhit'⟩ := h d hcons hdone
        have hne : w' ≠ w := fun heq => hhit (heq ▸ hhit')
        exact ⟨w', (List.mem_erase_of_ne hne).2 hw', hhit'⟩
    | _ => simp [hcons] at hasleep
  · exact h

theorem covered_step (hP : P.ProbesSee) (h : Covered P s) (hsafe : Safe P s e) :
    Covered P (step P s e) := by
  cases e with
  | call c =>
    rw [step]
    split
    · exact covered_of_awake (by simp)
    · exact h
  | attempt => exact covered_attempt h
  | sleep => exact covered_sleep hP h hsafe
  | publish a => exact covered_publish h hsafe
  | wake w => exact covered_wake h

/-- The invariant along a run whose steps all meet a condition that makes them safe. -/
theorem covered_run (hP : P.ProbesSee) {M : Config Ω C W → Event C A W → Prop}
    (hM : ∀ s e, M s e → Safe P s e) (es : List (Event C A W)) :
    ∀ s, Covered P s → RunMeets P M s es → Covered P (run P s es) :=
  fun _ => Traces.run_of_invariant fun s e h hmeets => covered_step hP h (hM s e hmeets)

end IndexOS.Rendezvous
