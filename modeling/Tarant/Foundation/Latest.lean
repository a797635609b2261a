import Mathlib.Data.List.Infix

/-!
# Reading a channel that keeps the latest value

A sender publishes values one after the other and the channel keeps the last.  A
receiver reads that value when it likes, and can wait for a value it has not marked
as seen.  It may miss values, but never the last one.
-/

namespace Tarant.Foundation

variable {α : Type*}

/-- A receiver: how many values it has marked as seen, everything its owner read, and
what was read since the last mark. -/
structure Reader (α : Type*) where
  seen : Nat := 0
  got : List α := []
  held : Option α := none

inductive Change where
  | ready
  | ended
  | pending
  deriving DecidableEq

namespace Reader

def change (r : Reader α) (published : List α) (ended : Bool) : Change :=
  if r.seen ≠ published.length then .ready
  else if ended then .ended
  else .pending

def mark (r : Reader α) (published : List α) : Reader α :=
  { r with seen := published.length, held := none }

def read (r : Reader α) (value : α) : Reader α :=
  { r with got := r.got ++ [value], held := some value }

/-- The values were published in the order they were read in, and what is held is not
older than the last mark. -/
structure Sound (published : List α) (r : Reader α) : Prop where
  seen : r.seen ≤ published.length
  got : ∃ places : List Nat, places.Pairwise (· ≤ ·) ∧
    places.map (published[·]?) = r.got.map some
  held : ∀ value ∈ r.held, ∃ place, published[place]? = some value ∧ r.seen ≤ place + 1

namespace Sound

variable {published more : List α} {r : Reader α}

theorem start : Sound published {} where
  seen := Nat.zero_le _
  got := ⟨[], .nil, rfl⟩
  held := by simp

theorem getElem?_extend (h : published <+: more) {place : Nat} {value : α}
    (hplace : published[place]? = some value) : more[place]? = some value := by
  obtain ⟨rest, rfl⟩ := h
  rw [List.getElem?_append_left (List.getElem?_eq_some_iff.mp hplace).1]
  exact hplace

theorem exists_value {places : List Nat} {got : List α}
    (h : places.map (published[·]?) = got.map some) {place : Nat} (hmem : place ∈ places) :
    ∃ value, published[place]? = some value := by
  have hread : published[place]? ∈ got.map some := h ▸ List.mem_map_of_mem hmem
  obtain ⟨value, -, hvalue⟩ := List.mem_map.mp hread
  exact ⟨value, hvalue.symm⟩

theorem extend (h : Sound published r) (hmore : published <+: more) : Sound more r where
  seen := h.seen.trans hmore.length_le
  got := by
    obtain ⟨places, hsorted, hplaces⟩ := h.got
    refine ⟨places, hsorted, Eq.trans ?_ hplaces⟩
    apply List.map_congr_left
    intro place hmem
    obtain ⟨value, hvalue⟩ := exists_value hplaces hmem
    exact (getElem?_extend hmore hvalue).trans hvalue.symm
  held value hvalue := by
    obtain ⟨place, hplace, hseen⟩ := h.held value hvalue
    exact ⟨place, getElem?_extend hmore hplace, hseen⟩

theorem mark (h : Sound published r) : Sound published (r.mark published) where
  seen := le_rfl
  got := h.got
  held := by simp [Reader.mark]

theorem read (h : Sound published r) {value : α} (hlast : published.getLast? = some value) :
    Sound published (r.read value) := by
  have hplace : published[published.length - 1]? = some value := by
    rwa [← List.getLast?_eq_getElem?]
  refine ⟨h.seen, ?_, ?_⟩
  · obtain ⟨places, hsorted, hplaces⟩ := h.got
    refine ⟨places ++ [published.length - 1], ?_, ?_⟩
    · rw [List.pairwise_append]
      refine ⟨hsorted, List.pairwise_singleton _ _, ?_⟩
      intro place hmem last hlast
      obtain ⟨other, hother⟩ := exists_value hplaces hmem
      have hlt : place < published.length := (List.getElem?_eq_some_iff.mp hother).1
      obtain rfl := List.mem_singleton.mp hlast
      omega
    · rw [List.map_append, hplaces, Reader.read, List.map_append, List.map_singleton, hplace]
      rfl
  · intro held hheld
    obtain rfl : value = held := Option.some.inj hheld
    have hseen : r.seen ≤ published.length := h.seen
    exact ⟨_, hplace, by simp only [Reader.read]; omega⟩

theorem latest (h : Sound published r) {value : α} (hheld : r.held = some value) {ended : Bool}
    (hchange : r.change published ended ≠ .ready) : published.getLast? = some value := by
  obtain ⟨place, hplace, hseen⟩ := h.held value hheld
  have hlt : place < published.length := (List.getElem?_eq_some_iff.mp hplace).1
  have hall : r.seen = published.length := by
    by_contra hne
    exact hchange (by rw [change, if_pos hne])
  obtain rfl : place = published.length - 1 := by omega
  rwa [List.getLast?_eq_getElem?]

end Sound

end Reader

end Tarant.Foundation
