import Mathlib.Logic.Function.Basic
import Mathlib.Data.Option.Basic

/-! # Maps whose values carry a deadline, observed through a clock

A value may carry a deadline; from that instant on it is expired. The view of a map at an
instant keeps exactly the values that are not expired. Two maps agree at an instant when
their views are equal. Agreement survives the passing of time, any common update, and the
removal of expired values on one side only. Nothing here fixes the key, value or time type.
-/
namespace Redic.TimedMap

variable {K V T : Type*} [LE T] [DecidableLE T] (due : V → Option T)

/-- A value is expired from its deadline on; a value without one never is. -/
def expired (t : T) (v : V) : Bool :=
  match due v with
  | none => false
  | some d => decide (d ≤ t)

/-- What an observer at instant `t` can see under each key. -/
def view (t : T) (m : K → Option V) (k : K) : Option V :=
  (m k).filter (fun v => !expired due t v)

/-- Two maps hold the same unexpired values. -/
def AgreeAt (t : T) (m₁ m₂ : K → Option V) : Prop := ∀ k, view due t m₁ k = view due t m₂ k

/-- `m'` is `m` with some values removed, each of them expired at `t`. -/
def Evicts (t : T) (m m' : K → Option V) : Prop :=
  ∀ k, m' k = m k ∨ m' k = none ∧ ∃ v, m k = some v ∧ expired due t v = true

variable {due} {t : T} {m m' m₁ m₂ m₃ : K → Option V} {k : K} {v : V}

theorem view_eq_some : view due t m k = some v ↔ m k = some v ∧ expired due t v = false := by
  simp [view, Option.filter_eq_some_iff]

theorem view_of_none (h : m k = none) : view due t m k = none := by simp [view, h]

theorem view_of_live (h : m k = some v) (hv : expired due t v = false) :
    view due t m k = some v := view_eq_some.mpr ⟨h, hv⟩

theorem view_of_expired (h : m k = some v) (hv : expired due t v = true) :
    view due t m k = none := by simp [view, h, hv]

theorem AgreeAt.refl (m : K → Option V) : AgreeAt due t m m := fun _ => rfl
theorem AgreeAt.symm (h : AgreeAt due t m₁ m₂) : AgreeAt due t m₂ m₁ := fun k => (h k).symm
theorem AgreeAt.trans (h : AgreeAt due t m₁ m₂) (h' : AgreeAt due t m₂ m₃) :
    AgreeAt due t m₁ m₃ := fun k => (h k).trans (h' k)

theorem Evicts.refl (m : K → Option V) : Evicts due t m m := fun _ => Or.inl rfl

theorem Evicts.erase [DecidableEq K] (hm : m k = some v) (hv : expired due t v = true)
    (he : ∀ k', m' k' = if k' = k then none else m k') : Evicts due t m m' := by
  intro k'
  by_cases hk : k' = k
  · subst hk
    exact Or.inr ⟨by simp [he], v, hm, hv⟩
  · exact Or.inl (by simp [he, hk])

/-- Expired values are not visible, so evicting them changes no view. -/
theorem Evicts.agreeAt (h : Evicts due t m m') : AgreeAt due t m m' := by
  intro k
  rcases h k with hk | ⟨hk, v, hv, hx⟩
  · simp [view, hk]
  · rw [view_of_expired hv hx, view_of_none hk]

theorem Evicts.of_view (h : Evicts due t m m') (hv : view due t m k = some v) :
    m' k = some v := by
  obtain ⟨hm, hx⟩ := view_eq_some.mp hv
  rcases h k with hk | ⟨_, w, hw, hwx⟩
  · exact hk.trans hm
  · rw [hm] at hw
    cases hw
    rw [hx] at hwx
    cases hwx

theorem AgreeAt.update [DecidableEq K] {m₁' m₂' : K → Option V} (h : AgreeAt due t m₁ m₂)
    (o : Option V) (k : K) (h₁ : ∀ k', m₁' k' = if k' = k then o else m₁ k')
    (h₂ : ∀ k', m₂' k' = if k' = k then o else m₂ k') : AgreeAt due t m₁' m₂' := by
  intro k'
  have hk' := h k'
  simp only [view] at hk' ⊢
  rw [h₁, h₂]
  split
  · rfl
  · exact hk'

section Passing
variable [Std.IsPreorder T]

theorem expired_mono {t t' : T} (ht : t ≤ t') (h : expired due t v = true) :
    expired due t' v = true := by
  unfold expired at h ⊢
  split at h
  · cases h
  · simp only [decide_eq_true_eq] at h ⊢
    exact Std.IsPreorder.le_trans _ _ _ h ht

theorem view_later {t t' : T} (ht : t ≤ t') (m : K → Option V) (k : K) :
    view due t' m k = (view due t m k).filter (fun v => !expired due t' v) := by
  cases hm : m k with
  | none => simp [view, hm]
  | some v =>
    cases hv : expired due t v with
    | false => simp [view, hm, hv, Option.filter]
    | true => simp [view, hm, hv, expired_mono ht hv, Option.filter]

/-- Maps that agree now agree for ever, as long as nobody touches them. -/
theorem AgreeAt.later {t t' : T} (h : AgreeAt due t m₁ m₂) (ht : t ≤ t') :
    AgreeAt due t' m₁ m₂ := by
  intro k
  rw [view_later ht, view_later ht, h k]

end Passing

end Redic.TimedMap
