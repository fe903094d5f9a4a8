import Mathlib.Data.List.Perm.Basic
import Mathlib.Data.List.Sort
/-!
# Comparison sorts

What a sort by a strict comparison `lt` promises, and no more: the result is a permutation of the
input and no element is preceded by one that it should precede. The order of equivalent elements is
left open, so a result about every `Sorter` holds of an unstable sort too.
-/

structure Sorter (α : Type) (lt : α → α → Bool) where
  sort : List α → List α
  perm : ∀ l, (sort l).Perm l
  sorted : ∀ l, (sort l).Pairwise fun a b => lt b a = false

namespace Sorter

variable {α κ : Type} {lt : α → α → Bool}

theorem mem_sort (S : Sorter α lt) {l : List α} {a : α} : a ∈ S.sort l ↔ a ∈ l := (S.perm l).mem_iff

theorem sort_ne_nil (S : Sorter α lt) {l : List α} (h : l ≠ []) : S.sort l ≠ [] := fun e =>
  h ((List.nil_perm).1 (e ▸ S.perm l))

/-- Nothing in the list should precede the first element of the result. -/
theorem head_first (S : Sorter α lt) {l t : List α} {x : α} (hirr : lt x x = false) (hx : S.sort l = x :: t) :
    x ∈ l ∧ ∀ a ∈ l, lt a x = false := by
  have hs := S.sorted l
  rw [hx, List.pairwise_cons] at hs
  refine ⟨S.mem_sort.1 (by simp [hx]), ?_⟩
  intro a ha
  have ha' := S.mem_sort.2 ha
  rw [hx, List.mem_cons] at ha'
  rcases ha' with rfl | ha'
  · exact hirr
  · exact hs.1 a ha'

/-- Sorting by what `f` says of the elements sorts the elements. -/
theorem exists_map {β : Type} (S : Sorter α lt) (f : β → α) (l : List β) :
    ∃ sel : List β, sel.Perm l ∧ S.sort (l.map f) = sel.map f := by
  have hf : List.Forall₂ (fun a b => a = f b) (l.map f) l := by
    rw [List.forall₂_map_left_iff, List.forall₂_same]
    exact fun _ _ => rfl
  obtain ⟨sel, hsel, hperm⟩ := List.perm_comp_forall₂ (S.perm (l.map f)) hf
  refine ⟨sel, hperm, ?_⟩
  rw [← List.forall₂_eq_eq_eq, List.forall₂_map_right_iff]
  exact hsel

/-- Insertion sort by a key, greatest key first. -/
def descending [LinearOrder κ] (key : α → κ) : Sorter α (fun a b => key b < key a) where
  sort := List.insertionSort fun a b => key b ≤ key a
  perm := List.perm_insertionSort _
  sorted := fun l => by
    have : Std.Total fun a b : α => key b ≤ key a := ⟨fun a b => le_total (key b) (key a)⟩
    have : IsTrans α fun a b => key b ≤ key a := ⟨fun _ _ _ hab hbc => hbc.trans hab⟩
    apply (List.pairwise_insertionSort _ l).imp
    intro a b h
    simp only [decide_eq_false_iff_not, not_lt]
    exact h

end Sorter
