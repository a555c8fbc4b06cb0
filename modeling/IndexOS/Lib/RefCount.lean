import Mathlib.Data.Fintype.Card

/-!
# Reference counts over places

A finite set of *places* holds *pages*: `held p` is the page the place `p` holds, if it holds one.
Every page has a counter, and pages that nobody uses are in a pool.  A `Ledger` says that the three
fit together: a page in the pool is not in use, a page that is held is, and the counter of a page in
use is positive and at least the number of places that hold it.  With `exact` it is that number.

The counters may be kept for some pages only, those that are `tracked`; the others are never given
back.

* `holders` — the number of places that hold a page, and how it changes when one place does
  (`holders_update`);
* `Ledger.pop`, `Ledger.push` — a page leaves the pool or enters it without being held;
* `Ledger.acquire`, `Ledger.share` — a place takes a page that is not in use, or one that is;
* `Ledger.drop`, `Ledger.release` — a place gives its page up, and the page is kept or returned to
  the pool.
-/

set_option autoImplicit false

namespace IndexOS

open Finset
open Function (update update_of_ne update_self)

variable {π φ : Type} [Fintype π] [DecidableEq φ]

/-- The number of places that hold the page `f`. -/
def holders (held : π → Option φ) (f : φ) : Nat := (univ.filter fun p => held p = some f).card

section Holders

variable {held held' : π → Option φ} {f : φ} {p p' : π}

theorem holders_congr (h : ∀ p, held' p = some f ↔ held p = some f) :
    holders held' f = holders held f := by
  unfold holders
  simp only [h]

theorem holders_eq_zero (h : ∀ p, held p ≠ some f) : holders held f = 0 := by
  unfold holders
  rw [card_eq_zero, filter_eq_empty_iff]
  exact fun p _ => h p

/-- With one holder at most there is no second one. -/
theorem eq_of_holders_le_one (h : holders held f ≤ 1) (hp : held p = some f)
    (hp' : held p' = some f) : p' = p :=
  card_le_one.1 h p' (by simpa using hp') p (by simpa using hp)

theorem holders_update [DecidableEq π] (held : π → Option φ) (p : π) (v : Option φ) (f : φ) :
    holders (update held p v) f + (if held p = some f then 1 else 0) =
      holders held f + (if v = some f then 1 else 0) := by
  have hsplit : ∀ h : π → Option φ, holders h f =
      ((univ.erase p).filter fun x => h x = some f).card + (if h p = some f then 1 else 0) := by
    intro h
    unfold holders
    rw [← insert_erase (mem_univ p), filter_insert]
    split
    · rw [card_insert_of_notMem (by simp), erase_insert (by simp)]
    · rw [erase_insert (by simp), Nat.add_zero]
  have hrest : ((univ.erase p).filter fun x => update held p v x = some f) =
      (univ.erase p).filter fun x => held x = some f := by
    apply filter_congr
    intro x hx
    rw [update_of_ne (ne_of_mem_erase hx)]
  rw [hsplit (update held p v), hsplit held, hrest, update_self]
  omega

/-- When the holders of a page differ in `key`, there are as many of them as keys at most. -/
theorem holders_le {κ : Type} [Fintype κ] (key : π → κ)
    (h : ∀ p p', held p = some f → held p' = some f → key p = key p' → p = p') :
    holders held f ≤ Fintype.card κ := by
  apply card_le_card_of_injOn key (fun _ _ => mem_univ _)
  intro p hp p' hp' heq
  exact h p p' (by simpa using hp) (by simpa using hp') heq

end Holders

/-- Counters, places and pool fit together. -/
structure Ledger (exact : Prop) (tracked : φ → Prop) (held : π → Option φ) (refs : φ → Nat)
    (pool : List φ) (busy : φ → Prop) : Prop where
  nodup : pool.Nodup
  idle_of_mem : ∀ f ∈ pool, ¬ busy f
  busy_of_held : ∀ p f, held p = some f → busy f
  refs_idle : ∀ f, tracked f → ¬ busy f → refs f = 0
  refs_busy : ∀ f, tracked f → busy f → 0 < refs f
  counted : ∀ f, tracked f → holders held f ≤ refs f
  exact_refs : exact → ∀ f, tracked f → refs f ≤ holders held f

namespace Ledger

variable {exact : Prop} {tracked : φ → Prop} {held held' : π → Option φ} {refs refs' : φ → Nat}
  {pool pool' : List φ} {busy busy' : φ → Prop} {f : φ} {p p' : π}

theorem pop (L : Ledger exact tracked held refs (f :: pool) busy) :
    Ledger exact tracked held refs pool busy where
  nodup := (List.nodup_cons.1 L.nodup).2
  idle_of_mem g hg := L.idle_of_mem g (List.mem_cons_of_mem _ hg)
  busy_of_held := L.busy_of_held
  refs_idle := L.refs_idle
  refs_busy := L.refs_busy
  counted := L.counted
  exact_refs := L.exact_refs

/-- What the counts are after a place has given up the page `f`. -/
theorem holders_drop [DecidableEq π] (hp : held p = some f) (g : φ) :
    holders (update held p none) g + (if f = g then 1 else 0) = holders held g := by
  have hupdate := holders_update held p none g
  simpa [hp] using hupdate

variable (L : Ledger exact tracked held refs pool busy)
include L

theorem not_held (hf : ¬ busy f) (p : π) :
    held p ≠ some f :=
  fun h => hf (L.busy_of_held p f h)

theorem push (hf : f ∉ pool) (hb : ¬ busy f) :
    Ledger exact tracked held refs (f :: pool) busy where
  nodup := List.nodup_cons.2 ⟨hf, L.nodup⟩
  idle_of_mem g hg := by
    rcases List.mem_cons.1 hg with rfl | hg
    · exact hb
    · exact L.idle_of_mem g hg
  busy_of_held := L.busy_of_held
  refs_idle := L.refs_idle
  refs_busy := L.refs_busy
  counted := L.counted
  exact_refs := L.exact_refs

/-- Only the page `f` has changed. -/
theorem revise (f : φ) (hnodup : pool'.Nodup)
    (hidle : ∀ g ∈ pool', ¬ busy' g) (hheld : ∀ r g, held' r = some g → busy' g)
    (hothers : ∀ g, g ≠ f →
      refs' g = refs g ∧ holders held' g = holders held g ∧ (busy' g ↔ busy g))
    (hf : tracked f → (¬ busy' f → refs' f = 0) ∧ (busy' f → 0 < refs' f) ∧
      holders held' f ≤ refs' f ∧ (exact → refs' f ≤ holders held' f)) :
    Ledger exact tracked held' refs' pool' busy' := by
  refine ⟨hnodup, hidle, hheld, ?_, ?_, ?_, ?_⟩
  · intro g hg hb
    by_cases hgf : g = f
    · subst hgf; exact (hf hg).1 hb
    · obtain ⟨hrefs, -, hbusy⟩ := hothers g hgf
      rw [hrefs]
      exact L.refs_idle g hg (fun h => hb (hbusy.2 h))
  · intro g hg hb
    by_cases hgf : g = f
    · subst hgf; exact (hf hg).2.1 hb
    · obtain ⟨hrefs, -, hbusy⟩ := hothers g hgf
      rw [hrefs]
      exact L.refs_busy g hg (hbusy.1 hb)
  · intro g hg
    by_cases hgf : g = f
    · subst hgf; exact (hf hg).2.2.1
    · obtain ⟨hrefs, hcount, -⟩ := hothers g hgf
      rw [hrefs, hcount]
      exact L.counted g hg
  · intro hex g hg
    by_cases hgf : g = f
    · subst hgf; exact (hf hg).2.2.2 hex
    · obtain ⟨hrefs, hcount, -⟩ := hothers g hgf
      rw [hrefs, hcount]
      exact L.exact_refs hex g hg

variable [DecidableEq π]

/-- A place that holds nothing takes a page that is neither in use nor in the pool. -/
theorem acquire (hp : held p = none) (hf : ¬ busy f)
    (hpool : f ∉ pool) (hbusy : ∀ g, busy' g ↔ busy g ∨ g = f) (hne : ∀ g, g ≠ f → refs' g = refs g)
    (heq : tracked f → refs' f = refs f + 1) :
    Ledger exact tracked (update held p (some f)) refs' pool busy' := by
  have hcount : ∀ g, holders (update held p (some f)) g =
      holders held g + (if f = g then 1 else 0) := by
    intro g
    have hupdate := holders_update held p (some f) g
    simpa [hp] using hupdate
  refine L.revise f L.nodup ?_ ?_ ?_ ?_
  · intro g hg hb
    rcases (hbusy g).1 hb with hb | rfl
    · exact L.idle_of_mem g hg hb
    · exact hpool hg
  · intro r g hg
    rcases eq_or_ne r p with rfl | hrp
    · rw [update_self, Option.some.injEq] at hg
      exact (hbusy g).2 (.inr hg.symm)
    · rw [update_of_ne hrp] at hg
      exact (hbusy g).2 (.inl (L.busy_of_held r g hg))
  · intro g hgf
    refine ⟨hne g hgf, ?_, ?_⟩
    · rw [hcount g, if_neg (Ne.symm hgf), Nat.add_zero]
    · rw [hbusy g, or_iff_left hgf]
  · intro htracked
    have hfresh : holders held f = 0 := holders_eq_zero (L.not_held hf)
    have hrefs : refs f = 0 := L.refs_idle f htracked hf
    have hbusyf : busy' f := (hbusy f).2 (.inr rfl)
    rw [hcount f, if_pos rfl, heq htracked, hfresh, hrefs]
    exact ⟨fun h => absurd hbusyf h, fun _ => Nat.one_pos, le_refl _, fun _ => le_refl _⟩

/-- A place takes a page that another one holds; it may hold that page already, and then the count
is no longer exact. -/
theorem share (hp' : held p' = some f)
    (hp : held p = none ∨ held p = some f ∧ ¬ exact) (hne : ∀ g, g ≠ f → refs' g = refs g)
    (heq : tracked f → refs' f = refs f + 1) :
    Ledger exact tracked (update held p (some f)) refs' pool busy := by
  have hb : busy f := L.busy_of_held p' f hp'
  refine L.revise f L.nodup L.idle_of_mem ?_ ?_ ?_
  · intro r g hg
    rcases eq_or_ne r p with rfl | hrp
    · rw [update_self, Option.some.injEq] at hg
      rwa [← hg]
    · rw [update_of_ne hrp] at hg
      exact L.busy_of_held r g hg
  · intro g hgf
    refine ⟨hne g hgf, holders_congr fun r => ?_, Iff.rfl⟩
    rcases eq_or_ne r p with rfl | hrp
    · rw [update_self]
      rcases hp with hp | ⟨hp, -⟩ <;> simp [hp]
      exact fun h => hgf h.symm
    · rw [update_of_ne hrp]
  · intro htracked
    have hupdate := holders_update held p (some f) f
    have hle := L.counted f htracked
    rw [if_pos rfl] at hupdate
    rw [heq htracked]
    refine ⟨fun h => absurd hb h, fun _ => Nat.succ_pos _, by omega, fun hex => ?_⟩
    have hnone : held p = none := hp.resolve_right (fun h => h.2 hex)
    have hge := L.exact_refs hex f htracked
    rw [hnone, if_neg (by simp)] at hupdate
    omega

/-- A place gives up a page that stays in use. -/
theorem drop (hp : held p = some f)
    (hkeep : tracked f → 1 < refs f) (hne : ∀ g, g ≠ f → refs' g = refs g)
    (heq : tracked f → refs' f + 1 = refs f) :
    Ledger exact tracked (update held p none) refs' pool busy := by
  refine L.revise f L.nodup L.idle_of_mem ?_ ?_ ?_
  · intro r g hg
    rcases eq_or_ne r p with rfl | hrp
    · simp at hg
    · rw [update_of_ne hrp] at hg
      exact L.busy_of_held r g hg
  · intro g hgf
    have hcount := holders_drop hp g
    rw [if_neg (Ne.symm hgf)] at hcount
    exact ⟨hne g hgf, hcount, Iff.rfl⟩
  · intro htracked
    have hcount := holders_drop hp f
    have hle := L.counted f htracked
    have hlt := hkeep htracked
    have hsub := heq htracked
    rw [if_pos rfl] at hcount
    refine ⟨fun h => absurd (L.busy_of_held p f hp) h, fun _ => by omega, by omega, fun hex => ?_⟩
    have hge := L.exact_refs hex f htracked
    omega

/-- A place gives up a page whose counter is 1: nobody holds it any more and it enters the pool. -/
theorem release (hp : held p = some f)
    (htracked : tracked f) (hone : refs f = 1) (hbusy : ∀ g, busy' g ↔ busy g ∧ g ≠ f)
    (hne : ∀ g, g ≠ f → refs' g = refs g) (heq : refs' f = 0) :
    Ledger exact tracked (update held p none) refs' (f :: pool) busy' := by
  have hle : holders held f ≤ 1 := hone ▸ L.counted f htracked
  refine L.revise f
    (List.nodup_cons.2 ⟨fun h => L.idle_of_mem f h (L.busy_of_held p f hp), L.nodup⟩) ?_ ?_ ?_ ?_
  · intro g hg hb
    rcases List.mem_cons.1 hg with rfl | hg
    · exact ((hbusy g).1 hb).2 rfl
    · exact L.idle_of_mem g hg ((hbusy g).1 hb).1
  · intro r g hg
    rcases eq_or_ne r p with rfl | hrp
    · simp at hg
    · rw [update_of_ne hrp] at hg
      refine (hbusy g).2 ⟨L.busy_of_held r g hg, ?_⟩
      rintro rfl
      exact hrp (eq_of_holders_le_one hle hp hg)
  · intro g hgf
    have hcount := holders_drop hp g
    rw [if_neg (Ne.symm hgf)] at hcount
    exact ⟨hne g hgf, hcount, by rw [hbusy g, and_iff_left hgf]⟩
  · intro _
    have hcount := holders_drop hp f
    rw [if_pos rfl] at hcount
    rw [heq]
    exact ⟨fun _ => rfl, fun h => absurd rfl ((hbusy f).1 h).2, by omega, fun _ => Nat.zero_le _⟩

end Ledger

end IndexOS
