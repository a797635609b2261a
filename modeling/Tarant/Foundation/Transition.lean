import Mathlib

/-!
# Guarded runs of a partial transition function

A system is a partial step function: `step s e = some t` when the event `e` can
happen in `s` and leads to `t`.  `Reaches step allowed start` collects the
states of all runs whose steps satisfy `allowed`; with `allowed` trivially true
these are the reachable states.  `Justified` is the corresponding notion for a
log that only grows: every record is accounted for by the records before it.
-/

namespace Tarant.Foundation

variable {σ ε ω : Type*}

/-- The states reached from `start` by steps that all satisfy `allowed`. -/
inductive Reaches (step : σ → ε → Option σ) (allowed : σ → ε → Prop)
    (start : σ) : σ → Prop where
  | refl : Reaches step allowed start start
  | next {s t : σ} {e : ε} : Reaches step allowed start s → allowed s e →
      step s e = some t → Reaches step allowed start t

def anyStep (_ : σ) (_ : ε) : Prop := True

def runFrom (step : σ → ε → Option σ) : σ → List ε → Option σ
  | s, [] => some s
  | s, e :: events => (step s e).bind fun t => runFrom step t events

namespace Reaches

variable {step : σ → ε → Option σ} {allowed allowed' : σ → ε → Prop}
  {start s t : σ}

theorem invariant {I : σ → Prop} (hstart : I start)
    (hstep : ∀ {s t : σ} {e : ε}, Reaches step allowed start s → I s →
      allowed s e → step s e = some t → I t)
    (h : Reaches step allowed start s) : I s := by
  induction h with
  | refl => exact hstart
  | next hreach hallowed hnext ih => exact hstep hreach ih hallowed hnext

theorem mono (hmono : ∀ s e, allowed s e → allowed' s e)
    (h : Reaches step allowed start s) : Reaches step allowed' start s := by
  induction h with
  | refl => exact .refl
  | next _ hallowed hnext ih => exact .next ih (hmono _ _ hallowed) hnext

theorem weaken (h : Reaches step allowed start s) :
    Reaches step anyStep start s :=
  h.mono fun _ _ _ => trivial

theorem trans (hfirst : Reaches step allowed start s)
    (hsecond : Reaches step allowed s t) : Reaches step allowed start t := by
  induction hsecond with
  | refl => exact hfirst
  | next _ hallowed hnext ih => exact .next ih hallowed hnext

end Reaches

theorem reaches_of_runFrom {step : σ → ε → Option σ} {s t : σ}
    {events : List ε} (h : runFrom step s events = some t) :
    Reaches step anyStep s t := by
  induction events generalizing s with
  | nil =>
      simp only [runFrom, Option.some.injEq] at h
      subst t
      exact .refl
  | cons e events ih =>
      simp only [runFrom, Option.bind_eq_some_iff] at h
      obtain ⟨u, hu, ht⟩ := h
      exact Reaches.trans (.next .refl trivial hu) (ih ht)

theorem reaches_of_check (step : σ → ε → Option σ) (s : σ) (events : List ε)
    (check : σ → Bool) (h : (runFrom step s events).any check = true) :
    ∃ t, Reaches step anyStep s t ∧ check t = true := by
  rw [Option.any_eq_true] at h
  obtain ⟨t, ht, hcheck⟩ := h
  exact ⟨t, reaches_of_runFrom ht, hcheck⟩

def runWhile (step : σ → ε → Option σ) (guard : σ → ε → Bool) : σ → List ε → Option σ
  | s, [] => some s
  | s, e :: events =>
      if guard s e then (step s e).bind fun t => runWhile step guard t events else none

theorem reaches_of_guarded (step : σ → ε → Option σ) {allowed : σ → ε → Prop}
    (guard : σ → ε → Bool) (hguard : ∀ s e, guard s e = true → allowed s e) (s : σ)
    (events : List ε) (check : σ → Bool)
    (h : (runWhile step guard s events).any check = true) :
    ∃ t, Reaches step allowed s t ∧ check t = true := by
  induction events generalizing s with
  | nil => exact ⟨s, .refl, by simpa [runWhile] using h⟩
  | cons e events ih =>
      simp only [runWhile] at h
      split at h
      next hpass =>
        cases hstep : step s e with
        | none => simp [hstep] at h
        | some u =>
            obtain ⟨t, hreach, hcheck⟩ := ih u (by simpa [hstep] using h)
            exact ⟨t, .trans (.next .refl (hguard s e hpass) hstep) hreach, hcheck⟩
      · simp at h

/-! ## Runs with a record of what was observed -/

def observing (step : σ → ε → Option σ) (look : σ → ε → σ → List ω) :
    σ × List ω → ε → Option (σ × List ω)
  | (s, seen), e => (step s e).map fun t => (t, seen ++ look s e t)

theorem observing_eq_some {step : σ → ε → Option σ} {look : σ → ε → σ → List ω} {s t : σ}
    {seen seen' : List ω} {e : ε} :
    observing step look (s, seen) e = some (t, seen') ↔
      step s e = some t ∧ seen' = seen ++ look s e t := by
  simp only [observing, Option.map_eq_some_iff, Prod.mk.injEq]
  constructor
  · rintro ⟨u, hu, rfl, rfl⟩
    exact ⟨hu, rfl⟩
  · rintro ⟨ht, rfl⟩
    exact ⟨t, ht, rfl, rfl⟩

theorem Reaches.unobserved {step : σ → ε → Option σ} {look : σ → ε → σ → List ω} {start : σ}
    {x : σ × List ω} (h : Reaches (observing step look) anyStep (start, []) x) :
    Reaches step anyStep start x.1 := by
  refine Reaches.invariant (I := fun x => Reaches step anyStep start x.1) .refl ?_ h
  rintro ⟨s, seen⟩ ⟨t, seen'⟩ e - hs - hstep
  exact .next hs trivial (observing_eq_some.mp hstep).1

/-! ## Logs that only grow -/

theorem append_eq_split {log batch before after : List ω} {record : ω}
    (h : log ++ batch = before ++ record :: after) :
    (∃ after', log = before ++ record :: after' ∧ after = after' ++ batch) ∨
      ∃ before', batch = before' ++ record :: after ∧ before = log ++ before' := by
  rcases List.append_eq_append_iff.mp h with ⟨middle, hbefore, hbatch⟩ | ⟨middle, hlog, hafter⟩
  · exact .inr ⟨middle, hbatch, hbefore⟩
  · cases middle with
    | nil => exact .inr ⟨[], by simpa using hafter.symm, by simpa using hlog.symm⟩
    | cons first rest =>
        obtain ⟨rfl, rfl⟩ := List.cons.inj hafter
        exact .inl ⟨rest, hlog, rfl⟩

/-- Every record of the log is accounted for by the records before it. -/
def Justified (reason : List ω → ω → Prop) (log : List ω) : Prop :=
  ∀ before record after, log = before ++ record :: after → reason before record

@[simp] theorem justified_nil (reason : List ω → ω → Prop) :
    Justified reason [] := by
  intro before record after h
  simp at h

theorem justified_concat {reason : List ω → ω → Prop} {log : List ω} {record : ω} :
    Justified reason (log ++ [record]) ↔
      Justified reason log ∧ reason log record := by
  constructor
  · intro h
    constructor
    · intro before first after hlog
      exact h before first (after ++ [record]) (by simp [hlog])
    · exact h log record [] rfl
  · rintro ⟨hlog, hrecord⟩ before first after h
    rcases List.eq_nil_or_concat after with rfl | ⟨after', last, rfl⟩
    · obtain ⟨rfl, hlast⟩ := List.append_inj' h rfl
      simp only [List.cons.injEq, and_true] at hlast
      subst first
      exact hrecord
    · rw [List.concat_eq_append, ← List.cons_append, ← List.append_assoc] at h
      obtain ⟨hinit, -⟩ := List.append_inj' h rfl
      exact hlog before first after' hinit

theorem justified_append {reason : List ω → ω → Prop} {log batch : List ω}
    (hlog : Justified reason log)
    (hbatch : ∀ before record after, batch = before ++ record :: after →
      reason (log ++ before) record) :
    Justified reason (log ++ batch) := by
  induction batch using List.reverseRecOn with
  | nil => simpa using hlog
  | append_singleton batch record ih =>
      rw [← List.append_assoc, justified_concat]
      constructor
      · apply ih
        intro before first after h
        exact hbatch before first (after ++ [record]) (by simp [h])
      · exact hbatch batch record [] rfl

end Tarant.Foundation
