import Mathlib.Data.List.Forall2
import Mathlib.Data.List.Perm.Basic
import Mathlib.Data.List.Perm.Subperm
import Mathlib.Data.List.ReduceOption

/-!
Owns parts of lists in any order: what is picked through a map can be picked before it, and
labelled items may be picked label by label.
-/

namespace EpicMiner.Library

variable {κ α β : Type*}

theorem subperm_reduceOption {left right : List (Option α)} (subperm : left.Subperm right) :
    left.reduceOption.Subperm right.reduceOption := by
  obtain ⟨middle, perm, sublist⟩ := subperm
  exact ⟨middle.reduceOption, perm.filterMap id, sublist.filterMap id⟩

theorem subperm_map (f : α → β) {left right : List α} (subperm : left.Subperm right) :
    (left.map f).Subperm (right.map f) := by
  obtain ⟨middle, perm, sublist⟩ := subperm
  exact ⟨middle.map f, perm.map f, sublist.map f⟩

/-- A part of the image is the image of a part. -/
theorem exists_of_subperm_map {f : α → β} {images : List β} {items : List α}
    (subperm : images.Subperm (items.map f)) :
    ∃ picked : List α, picked.Subperm items ∧ images = picked.map f := by
  obtain ⟨middle, perm, sublist⟩ := subperm
  obtain ⟨kept, keptSublist, rfl⟩ := List.sublist_map_iff.mp sublist
  have each : List.Forall₂ (fun image item => image = f item) (kept.map f) kept :=
    List.forall₂_map_left_iff.mpr (List.forall₂_same.mpr fun _ _ => rfl)
  obtain ⟨picked, same, pickedPerm⟩ := List.perm_comp_forall₂ perm.symm each
  refine ⟨picked, ⟨kept, pickedPerm.symm, keptSublist⟩, ?_⟩
  rw [← List.forall₂_eq_eq_eq, List.forall₂_map_right_iff]
  exact same

section Labels

variable [DecidableEq κ] [DecidableEq β]

/-- A labelled item is counted among the items with its label. -/
theorem countP_labelled (pairs : List (κ × β)) (label : κ) (item : β) :
    pairs.countP (fun pair => decide (pair = (label, item))) =
      ((pairs.filter fun pair => pair.1 = label).map Prod.snd).countP
        fun other => decide (other = item) := by
  induction pairs with
  | nil => rfl
  | cons pair rest inductionHypothesis =>
      obtain ⟨other, value⟩ := pair
      by_cases same : other = label
      · simp [same, List.countP_cons, inductionHypothesis]
      · simp [same, inductionHypothesis]

/-- Labelled items that are, label by label, among others, are all among them. -/
theorem subperm_of_labels {left right : List (κ × β)}
    (each : ∀ pair ∈ left, ((left.filter fun other => other.1 = pair.1).map Prod.snd).Subperm
      ((right.filter fun other => other.1 = pair.1).map Prod.snd)) : left.Subperm right := by
  rw [List.subperm_iff_count]
  intro pair
  change left.countP (fun other => decide (other = pair)) ≤
    right.countP fun other => decide (other = pair)
  by_cases member : pair ∈ left
  · rw [countP_labelled left pair.1 pair.2, countP_labelled right pair.1 pair.2]
    exact (each pair member).countP_le _
  · have absent : left.countP (fun other => decide (other = pair)) = 0 := by
      rw [List.countP_eq_zero]
      intro other isIn
      rw [decide_eq_true_eq]
      rintro rfl
      exact member isIn
    rw [absent]
    exact Nat.zero_le _

end Labels

end EpicMiner.Library
