import Mathlib

/-!
# Counting the entries of an association list

An insertion or an erasure changes the number of entries with a given property
by exactly the entry put in and the entry taken out.
-/

namespace Tarant.Foundation

variable {α : Type*} {β : α → Type*} [DecidableEq α]

def hit (p : Sigma β → Bool) (a : α) : Option (β a) → Nat
  | some b => if p ⟨a, b⟩ then 1 else 0
  | none => 0

theorem countP_kerase (p : Sigma β → Bool) (a : α) (l : List (Sigma β)) :
    l.countP p = (l.kerase a).countP p + hit p a (l.dlookup a) := by
  induction l with
  | nil => rfl
  | cons entry l ih =>
      obtain ⟨a', b'⟩ := entry
      by_cases h : a = a'
      · subst h
        have hkerase : List.kerase a (⟨a, b'⟩ :: l) = l := List.kerase_cons_eq rfl
        rw [hkerase, List.dlookup_cons_eq, List.countP_cons, hit]
      · rw [List.kerase_cons_ne h, List.dlookup_cons_ne _ _ h, List.countP_cons,
          List.countP_cons, ih]
        omega

theorem countP_erase (p : Sigma β → Bool) (a : α) (m : AList β) :
    m.entries.countP p = (m.erase a).entries.countP p + hit p a (m.lookup a) :=
  countP_kerase p a m.entries

theorem countP_insert (p : Sigma β → Bool) (a : α) (b : β a) (m : AList β) :
    (m.insert a b).entries.countP p + hit p a (m.lookup a) =
      m.entries.countP p + if p ⟨a, b⟩ then 1 else 0 := by
  have h := countP_kerase p a m.entries
  rw [AList.entries_insert, List.countP_cons, AList.lookup]
  omega

theorem mem_entries_of_lookup {a : α} {b : β a} {m : AList β}
    (h : m.lookup a = some b) : ⟨a, b⟩ ∈ m.entries :=
  AList.mem_lookup_iff.mp h

theorem lookup_of_mem_entries {a : α} {b : β a} {m : AList β}
    (h : ⟨a, b⟩ ∈ m.entries) : m.lookup a = some b :=
  AList.mem_lookup_iff.mpr h

theorem mem_entries_insert {a : α} {b : β a} {m : AList β} {entry : Sigma β}
    (h : entry ∈ (m.insert a b).entries) : entry = ⟨a, b⟩ ∨ entry ∈ m.entries := by
  rw [AList.entries_insert, List.mem_cons] at h
  exact h.imp_right fun hmem => List.mem_of_mem_eraseP hmem

theorem mem_entries_erase {a : α} {m : AList β} {entry : Sigma β}
    (h : entry ∈ (m.erase a).entries) : entry ∈ m.entries :=
  List.mem_of_mem_eraseP h

end Tarant.Foundation
