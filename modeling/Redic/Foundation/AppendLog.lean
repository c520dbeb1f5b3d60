import Mathlib.Data.List.Induction
import Mathlib.Data.List.Infix

/-! # Logs that grow by one record at a time

A state carries a log, and an input appends at most one record to it. Then every prefix of the
log was the whole log at some moment of the run: cutting the log back undoes a tail of the inputs
and nothing else.
-/
namespace Redic.AppendLog

variable {σ ι ρ : Type} {step : σ → ι → σ} {log : σ → List ρ}

/-- Every input appends a record or leaves the log alone. -/
def AppendsOne (step : σ → ι → σ) (log : σ → List ρ) : Prop :=
  ∀ s input, ∃ added : Option ρ, log (step s input) = log s ++ added.toList

/-- A log between the first and the last one was the log after some of the inputs. -/
theorem AppendsOne.exists_inputs (h : AppendsOne step log) {s : σ} {inputs : List ι} {cut : List ρ}
    (hlow : log s <+: cut) (hcut : cut <+: log (inputs.foldl step s)) :
    ∃ done, done <+: inputs ∧ log (done.foldl step s) = cut := by
  induction inputs using List.reverseRecOn with
  | nil => exact ⟨[], List.prefix_rfl, hlow.eq_of_length_le hcut.length_le⟩
  | append_singleton inputs input ih =>
    obtain ⟨added, hadded⟩ := h (inputs.foldl step s) input
    by_cases hbefore : cut <+: log (inputs.foldl step s)
    · obtain ⟨done, hdone, hlog⟩ := ih hbefore
      exact ⟨done, hdone.trans (List.prefix_append _ _), hlog⟩
    · -- only the whole log is longer than the one before the last input
      refine ⟨inputs ++ [input], List.prefix_rfl, ?_⟩
      rw [List.foldl_append, List.foldl_cons, List.foldl_nil] at hcut ⊢
      have hlonger : (log (inputs.foldl step s)).length < cut.length := by
        by_contra hshort
        refine hbefore (List.prefix_of_prefix_length_le hcut ?_ (Nat.not_lt.mp hshort))
        rw [hadded]
        exact List.prefix_append _ _
      refine (hcut.eq_of_length_le ?_).symm
      have hone := Option.length_toList_le (o := added)
      rw [hadded, List.length_append]
      omega

end Redic.AppendLog
