import Tarant.Foundation.Transition

/-!
# Progress by a rank

Where every state that is not yet at the goal has a step that lowers a rank, the goal is
reached, in no more steps than the rank allows.
-/

namespace Tarant.Foundation

variable {σ ε : Type*}

theorem exists_run_of_rank {step : σ → ε → Option σ} {allowed : ε → Prop} {I goal : σ → Prop}
    (rank : σ → Nat)
    (hstep : ∀ s, I s → ¬ goal s →
      ∃ e t, allowed e ∧ step s e = some t ∧ I t ∧ rank t < rank s) {s : σ} (hs : I s) :
    ∃ events t, runFrom step s events = some t ∧ (∀ e ∈ events, allowed e) ∧
      events.length ≤ rank s ∧ goal t := by
  induction hrank : rank s using Nat.strong_induction_on generalizing s with
  | h n ih =>
      by_cases hgoal : goal s
      · exact ⟨[], s, rfl, List.forall_mem_nil _, Nat.zero_le _, hgoal⟩
      · obtain ⟨e, t, hallowed, hnext, ht, hlt⟩ := hstep s hs hgoal
        obtain ⟨events, u, hrun, hall, hlength, hu⟩ := ih (rank t) (hrank ▸ hlt) ht rfl
        refine ⟨e :: events, u, ?_, List.forall_mem_cons.mpr ⟨hallowed, hall⟩, ?_, hu⟩
        · rw [runFrom, hnext, Option.bind_some, hrun]
        · rw [List.length_cons]
          omega

end Tarant.Foundation
