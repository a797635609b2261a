import Mathlib.Data.List.Infix

/-!
# Streams of self-delimiting words

Words of which none begins another can be written one after the other.  What can
be read off any beginning of such a stream is a beginning of what was written.
-/

namespace Tarant.Foundation

variable {α β : Type*}

/-- No word begins another, whatever follows them, and none is empty. -/
structure PrefixFree (code : α → List β → Prop) : Prop where
  ne_nil : ∀ {a x}, code a x → x ≠ []
  unique : ∀ {a b x y s t}, code a x → code b y → x ++ s = y ++ t → a = b ∧ x = y

inductive Words (code : α → List β → Prop) : List α → List β → Prop where
  | nil : Words code [] []
  | cons {a : α} {as : List α} {x xs : List β} (h : code a x) (hrest : Words code as xs) :
      Words code (a :: as) (x ++ xs)

namespace Words

variable {code : α → List β → Prop} {as bs : List α} {xs ys rest : List β}

theorem begins (hfree : PrefixFree code) (h : Words code bs ys) (hwhole : Words code as xs)
    (heq : xs = ys ++ rest) : ∃ cs, as = bs ++ cs ∧ Words code cs rest := by
  induction h generalizing as xs with
  | nil =>
      obtain rfl : xs = rest := heq
      exact ⟨as, rfl, hwhole⟩
  | @cons b bs y ys hb _ ih =>
      cases hwhole with
      | nil => simp [hfree.ne_nil hb] at heq
      | @cons a as x xs ha hrest =>
          rw [List.append_assoc] at heq
          obtain ⟨rfl, rfl⟩ := hfree.unique ha hb heq
          obtain ⟨cs, rfl, hcs⟩ := ih hrest (List.append_cancel_left heq)
          exact ⟨cs, rfl, hcs⟩

theorem eq_nil (hfree : PrefixFree code) (h : Words code as xs) (hnil : xs = []) : as = [] := by
  cases h with
  | nil => rfl
  | cons hword _ => exact absurd (List.append_eq_nil_iff.mp hnil).1 (hfree.ne_nil hword)

theorem unique (hfree : PrefixFree code) (h : Words code as xs) (h' : Words code bs xs) :
    as = bs := by
  obtain ⟨cs, rfl, hcs⟩ := h'.begins hfree h (List.append_nil xs).symm
  rw [hcs.eq_nil hfree rfl, List.append_nil]

theorem cut (h : Words code as xs) {received : List β} (hreceived : received <+: xs) :
    ∃ bs cs part left, as = bs ++ cs ∧ Words code bs part ∧ received = part ++ left ∧
      (left = [] ∨ ∃ c y, cs.head? = some c ∧ code c y ∧ left <+: y ∧ left ≠ y) := by
  induction h generalizing received with
  | nil => exact ⟨[], [], [], [], rfl, .nil, List.prefix_nil.mp hreceived, .inl rfl⟩
  | @cons a as x xs ha _ ih =>
      by_cases hlength : x.length ≤ received.length
      · obtain ⟨received, rfl⟩ :=
          List.prefix_of_prefix_length_le (List.prefix_append x xs) hreceived hlength
        have hrest : received <+: xs := (List.prefix_append_right_inj x).mp hreceived
        obtain ⟨bs, cs, part, left, rfl, hstream, rfl, hleft⟩ := ih hrest
        exact ⟨a :: bs, cs, x ++ part, left, rfl, .cons ha hstream,
          (List.append_assoc x part left).symm, hleft⟩
      · have hshort : received <+: x :=
          List.prefix_of_prefix_length_le hreceived (List.prefix_append x xs) (by omega)
        refine ⟨[], a :: as, [], received, rfl, .nil, rfl, .inr ⟨a, x, rfl, ha, hshort, ?_⟩⟩
        rintro rfl
        exact hlength le_rfl

end Words

end Tarant.Foundation
