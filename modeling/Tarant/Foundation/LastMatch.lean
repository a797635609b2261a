import Mathlib

/-!
# Folds in which the last match wins

A fold over entries often sets a field from the entries under one key and leaves it
alone otherwise.  The field then holds what the last of these entries gave.  An
entry that is alone under its key is the last one, wherever it stands.
-/

namespace Tarant.Foundation

variable {α β ε : Type*} {p : ε → Bool} {entries : List ε} {entry : ε}

def lastMatch (p : ε → Bool) (entries : List ε) : Option ε := (entries.filter p).getLast?

theorem lastMatch_concat (p : ε → Bool) (entries : List ε) (entry : ε) :
    lastMatch p (entries ++ [entry]) = if p entry then some entry else lastMatch p entries := by
  by_cases h : p entry = true <;> simp [lastMatch, List.filter_append, h]

theorem foldl_lastMatch {r : α → ε → α} {f : α → β} {g : ε → β}
    (hf : ∀ acc entry, f (r acc entry) = if p entry then g entry else f acc)
    (entries : List ε) (acc : α) :
    f (entries.foldl r acc) = ((lastMatch p entries).map g).getD (f acc) := by
  induction entries using List.reverseRecOn with
  | nil => rfl
  | append_singleton entries entry ih =>
      rw [List.foldl_append, List.foldl_cons, List.foldl_nil, hf, lastMatch_concat]
      split
      · rfl
      · exact ih

theorem lastMatch_of_perm {more : List ε} (hperm : entries.Perm more)
    (hmore : more.filter p = [entry]) : lastMatch p entries = some entry := by
  have hfilter := hperm.filter p
  rw [hmore, List.perm_singleton] at hfilter
  rw [lastMatch, hfilter]
  rfl

theorem lastMatch_none_of_perm {more : List ε} (hperm : entries.Perm more)
    (hmore : more.filter p = []) : lastMatch p entries = none := by
  have hfilter := hperm.filter p
  rw [hmore, List.perm_nil] at hfilter
  rw [lastMatch, hfilter]
  rfl

end Tarant.Foundation
