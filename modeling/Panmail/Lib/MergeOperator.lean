import Mathlib.Algebra.BigOperators.Group.List.Basic

/-!
# Merge operators

A key of a log-structured store can have a list of operands instead of a value, oldest first. The
store combines neighbouring operands whenever it likes: it starts a merger with one of them, adds
newer and older ones in any order, and puts the result in their place.
-/
namespace MergeOperator

open List

universe u v

variable {β : Type u} {σ : Type v}

/-- A value merger: how it starts, what it does with a newer and an older operand, and its result. -/
structure Merger (β : Type u) (σ : Type v) where
  merge : β → σ
  mergeNewer : σ → β → σ
  mergeOlder : σ → β → σ
  finish : σ → β

mutual

/-- A merger that has taken in these operands is in this state. -/
inductive Merging (M : Merger β σ) : List β → σ → Prop where
  | start {xs : List β} {x : β} (first : Combined M xs x) : Merging M xs (M.merge x)
  | newer {xs ys : List β} {s : σ} {y : β} (taken : Merging M xs s) (next : Combined M ys y) :
      Merging M (xs ++ ys) (M.mergeNewer s y)
  | older {xs ys : List β} {s : σ} {y : β} (taken : Merging M xs s) (before : Combined M ys y) :
      Merging M (ys ++ xs) (M.mergeOlder s y)

/-- The operands are combined into one. -/
inductive Combined (M : Merger β σ) : List β → β → Prop where
  | operand (x : β) : Combined M [x] x
  | finish {xs : List β} {s : σ} (taken : Merging M xs s) : Combined M xs (M.finish s)

end

mutual

theorem merging_ne_nil {M : Merger β σ} {xs : List β} {s : σ} : Merging M xs s → xs ≠ []
  | .start first => combined_ne_nil first
  | .newer taken _ => append_ne_nil_of_left_ne_nil (merging_ne_nil taken) _
  | .older taken _ => append_ne_nil_of_right_ne_nil _ (merging_ne_nil taken)

theorem combined_ne_nil {M : Merger β σ} {xs : List β} {x : β} : Combined M xs x → xs ≠ []
  | .operand x => cons_ne_nil x []
  | .finish taken => merging_ne_nil taken

end

variable {A : Type*} [AddCommMonoid A]

/-- A merger that adds: each of its steps adds the measure of what it takes in. -/
structure Adds (M : Merger β σ) (size : β → A) (sum : σ → A) : Prop where
  merge : ∀ x, sum (M.merge x) = size x
  mergeNewer : ∀ s x, sum (M.mergeNewer s x) = sum s + size x
  mergeOlder : ∀ s x, sum (M.mergeOlder s x) = sum s + size x
  finish : ∀ s, size (M.finish s) = sum s

variable {M : Merger β σ} {size : β → A} {sum : σ → A}

mutual

theorem merging_sum (adds : Adds M size sum) {xs : List β} {s : σ} :
    Merging M xs s → sum s = (xs.map size).sum
  | .start first => by
    rw [adds.merge]
    exact combined_sum adds first
  | .newer taken next => by
    rw [adds.mergeNewer, merging_sum adds taken, combined_sum adds next, map_append,
      sum_append]
  | .older taken before => by
    rw [adds.mergeOlder, merging_sum adds taken, combined_sum adds before, map_append,
      sum_append, add_comm]

/-- However the operands are combined, the result measures as much as they do together. -/
theorem combined_sum (adds : Adds M size sum) {xs : List β} {x : β} :
    Combined M xs x → size x = (xs.map size).sum
  | .operand x => by simp
  | .finish taken => by
    rw [adds.finish]
    exact merging_sum adds taken

end

end MergeOperator
