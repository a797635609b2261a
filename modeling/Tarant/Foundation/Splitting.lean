import Mathlib

/-!
# Splitting a list at a separator

A list is split at the first or at the last place of a separator, or after a given start.
Each of the splits undoes the join it is meant for.
-/

namespace Tarant.Foundation

variable {α : Type*} [DecidableEq α]

def splitFirst (separator : α) : List α → Option (List α × List α)
  | [] => none
  | item :: rest =>
      if item = separator then some ([], rest)
      else (splitFirst separator rest).map fun (front, back) => (item :: front, back)

def splitLast (separator : α) : List α → Option (List α × List α)
  | [] => none
  | item :: rest =>
      match splitLast separator rest with
      | some (front, back) => some (item :: front, back)
      | none => if item = separator then some ([], rest) else none

theorem splitFirst_append {separator : α} {front : List α} (back : List α)
    (h : separator ∉ front) :
    splitFirst separator (front ++ separator :: back) = some (front, back) := by
  induction front with
  | nil => exact if_pos rfl
  | cons item front ih =>
      rw [List.mem_cons, not_or] at h
      rw [List.cons_append, splitFirst, if_neg (Ne.symm h.1), ih h.2]
      rfl

theorem splitFirst_none {separator : α} {items : List α} (h : separator ∉ items) :
    splitFirst separator items = none := by
  induction items with
  | nil => rfl
  | cons item items ih =>
      rw [List.mem_cons, not_or] at h
      rw [splitFirst, if_neg (Ne.symm h.1), ih h.2]
      rfl

theorem splitLast_none {separator : α} {items : List α} (h : separator ∉ items) :
    splitLast separator items = none := by
  induction items with
  | nil => rfl
  | cons item items ih =>
      rw [List.mem_cons, not_or] at h
      rw [splitLast, ih h.2]
      exact if_neg (Ne.symm h.1)

theorem splitLast_append {separator : α} (front : List α) {back : List α}
    (h : separator ∉ back) :
    splitLast separator (front ++ separator :: back) = some (front, back) := by
  induction front with
  | nil =>
      rw [List.nil_append, splitLast, splitLast_none h]
      exact if_pos rfl
  | cons item front ih => rw [List.cons_append, splitLast, ih]

omit [DecidableEq α] in
theorem start_before {separator : α} {start rest front back : List α} (hstart : separator ∉ start)
    (h : start ++ rest = front ++ separator :: back) :
    ∃ middle, front = start ++ middle ∧ rest = middle ++ separator :: back := by
  obtain ⟨middle, hfront, hrest⟩ | ⟨middle, hstart', hrest⟩ := List.append_eq_append_iff.mp h
  · exact ⟨middle, hfront, hrest⟩
  · cases middle with
    | nil => exact ⟨[], by simpa using hstart'.symm, by simpa using hrest.symm⟩
    | cons item middle =>
        obtain ⟨rfl, -⟩ := List.cons.inj hrest
        exact absurd (by rw [hstart']; simp) hstart

end Tarant.Foundation
