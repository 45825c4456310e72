import Mathlib.Data.Finset.Card
import Mathlib.Data.List.TakeWhile

/-!
# Sets as ascending lists

A set kept as an ascending list, with binary search for its lookup. A search says where the value
is, or where it would go; either answer carries what makes the place right, so that an insertion
into the one and a removal at the other leave the list ascending.

Where a search would go on after it has failed is the only place the value can be inserted, and the
proofs that it is right come with the answer and not with the insertion. So no caller has to know
how the search finds it, and there is no insertion at a wrong place to be excluded.
-/

set_option autoImplicit false

namespace EngineKit
namespace Lib

structure Ascending (α : Type) [LinearOrder α] where
  items : List α
  sorted : items.Pairwise (· < ·)

/-- What `binary_search` answers. -/
inductive Search {α : Type} [LinearOrder α] (s : Ascending α) (x : α)
  /-- The value is at this index. -/
  | found (index : Nat) (get : s.items[index]? = some x)
  /-- It is nowhere, and would go in front of what is at this index. -/
  | gap (index : Nat) (below : ∀ y ∈ s.items.take index, y < x)
      (above : ∀ y ∈ s.items.drop index, x < y)

namespace Ascending

variable {α : Type} [LinearOrder α]

def empty : Ascending α := ⟨[], List.Pairwise.nil⟩

def toFinset (s : Ascending α) : Finset α := s.items.toFinset

/-- An ascending list has no value twice. -/
theorem nodup (s : Ascending α) : s.items.Nodup := s.sorted.imp fun h => ne_of_lt h

@[simp] theorem mem_toFinset {s : Ascending α} {x : α} : x ∈ s.toFinset ↔ x ∈ s.items :=
  List.mem_toFinset

@[simp] theorem toFinset_empty : (empty : Ascending α).toFinset = ∅ := rfl

/-! ## The search -/

/-- How many items are smaller. -/
def place (s : Ascending α) (x : α) : Nat := (s.items.takeWhile (· < x)).length

/-- Before the place of a value is what is smaller. -/
theorem take_place (s : Ascending α) (x : α) :
    s.items.take (s.place x) = s.items.takeWhile (· < x) :=
  List.prefix_iff_eq_take.mp (List.takeWhile_prefix _) |>.symm

/-- Behind the place of a value is what is not smaller. -/
theorem drop_place (s : Ascending α) (x : α) :
    s.items.drop (s.place x) = s.items.dropWhile (· < x) := by
  have hsplit := List.takeWhile_append_dropWhile (p := (decide <| · < x)) (l := s.items)
  conv_lhs => rw [← hsplit]
  exact List.drop_left' rfl

theorem lt_of_mem_take_place {s : Ascending α} {x y : α} (h : y ∈ s.items.take (s.place x)) :
    y < x := by
  rw [take_place] at h
  simpa using List.mem_takeWhile_imp h

/-- The first item that is not smaller is larger, when it is not the value, and then so are all
    behind it. -/
theorem lt_of_mem_drop_place {s : Ascending α} {x y : α} (hx : s.items[s.place x]? ≠ some x)
    (h : y ∈ s.items.drop (s.place x)) : x < y := by
  -- Behind the place there is nothing, or a first item, and the others are larger than it.
  cases hd : s.items.drop (s.place x) with
  | nil =>
    rw [hd] at h
    exact absurd h (by simp)
  | cons first rest =>
    have hfirst : x < first := by
      have hhead : s.items[s.place x]? = some first := by
        rw [← List.head?_drop, hd, List.head?_cons]
      have hnot : ¬ first < x := by
        rw [drop_place] at hd
        have hnot := List.head_dropWhile_not (fun y => decide (y < x)) (l := s.items) (by simp [hd])
        simpa [hd] using hnot
      have hne : first ≠ x := fun heq => hx (heq ▸ hhead)
      exact lt_of_le_of_ne (not_lt.mp hnot) hne.symm
    have hsorted : (first :: rest).Pairwise (· < ·) := by
      rw [← hd]
      exact s.sorted.sublist (List.drop_sublist _ _)
    rw [hd] at h
    rcases List.mem_cons.mp h with rfl | h
    · exact hfirst
    · exact lt_trans hfirst (List.rel_of_pairwise_cons hsorted h)

def binarySearch (s : Ascending α) (x : α) : Search s x :=
  if h : s.items[s.place x]? = some x then .found (s.place x) h
  else .gap (s.place x) (fun _ => lt_of_mem_take_place) (fun _ => lt_of_mem_drop_place h)

/-- What is found is there. -/
theorem mem_of_found {s : Ascending α} {x : α} {index : Nat} (h : s.items[index]? = some x) :
    x ∈ s.items := List.mem_of_getElem? h

/-- What has a gap is not there. -/
theorem not_mem_of_gap {s : Ascending α} {x : α} {index : Nat}
    (below : ∀ y ∈ s.items.take index, y < x) (above : ∀ y ∈ s.items.drop index, x < y) :
    x ∉ s.items := by
  intro h
  rw [← List.take_append_drop index s.items] at h
  rcases List.mem_append.mp h with h | h
  · exact lt_irrefl x (below x h)
  · exact lt_irrefl x (above x h)

/-! ## Changes -/

/-- `insert` at a gap. -/
def insertAt (s : Ascending α) (x : α) (index : Nat) (below : ∀ y ∈ s.items.take index, y < x)
    (above : ∀ y ∈ s.items.drop index, x < y) : Ascending α where
  items := s.items.take index ++ x :: s.items.drop index
  sorted := by
    refine List.pairwise_append.mpr ⟨?_, ?_, ?_⟩
    · exact s.sorted.sublist (List.take_sublist _ _)
    · exact List.pairwise_cons.mpr ⟨above, s.sorted.sublist (List.drop_sublist _ _)⟩
    · intro a ha b hb
      rcases List.mem_cons.mp hb with rfl | hb
      · exact below a ha
      · exact lt_trans (below a ha) (above b hb)

/-- `remove` -/
def removeAt (s : Ascending α) (index : Nat) : Ascending α where
  items := s.items.eraseIdx index
  sorted := s.sorted.sublist (List.eraseIdx_sublist _ _)

/-- **Inserting at a gap** adds the value to the set. -/
theorem toFinset_insertAt (s : Ascending α) (x : α) (index : Nat)
    (below : ∀ y ∈ s.items.take index, y < x) (above : ∀ y ∈ s.items.drop index, x < y) :
    (s.insertAt x index below above).toFinset = insert x s.toFinset := by
  ext y
  have hsplit := List.mem_append (a := y) (s := s.items.take index) (t := s.items.drop index)
  rw [List.take_append_drop] at hsplit
  simp only [mem_toFinset, insertAt, List.mem_append, List.mem_cons, Finset.mem_insert, hsplit]
  constructor
  · intro h
    -- Before the gap, at it, or behind it.
    rcases h with h | h | h
    · exact Or.inr (Or.inl h)
    · exact Or.inl h
    · exact Or.inr (Or.inr h)
  · intro h
    rcases h with h | h | h
    · exact Or.inr (Or.inl h)
    · exact Or.inl h
    · exact Or.inr (Or.inr h)

/-- **Removing what was found** takes it out. -/
theorem toFinset_removeAt {s : Ascending α} {x : α} {index : Nat}
    (h : s.items[index]? = some x) : (s.removeAt index).toFinset = s.toFinset.erase x := by
  obtain ⟨hlt, hget⟩ := List.getElem?_eq_some_iff.mp h
  have herase : (s.removeAt index).items = s.items.erase x := by
    rw [removeAt, ← hget, s.nodup.erase_getElem]
  ext y
  rw [mem_toFinset, herase, s.nodup.mem_erase_iff, Finset.mem_erase, mem_toFinset]

end Ascending

end Lib
end EngineKit
