import Mathlib.Algebra.Order.Field.Basic
import Mathlib.Algebra.BigOperators.Group.List.Basic
import Mathlib.Data.List.Sublists
import Mathlib.Order.Monotone.Basic
import Mathlib.Tactic.Linarith
import Mathlib.Tactic.LinearCombination

/-!
# Token buckets and what they let through

A bucket holds at most its capacity and fills at a rate. What it has let through is a ledger: each
entry an amount and the time it is due. The bound on such a ledger rests on `Covered`: what is left
and what was spent together come to no more than a full bucket and what has flowed in since. `Paced`
turns it into a bound on everything due by a time.
-/
namespace TokenBuckets

open List

universe u

variable {K : Type u} [Field K] [LinearOrder K] [IsStrictOrderedRing K]

def refill (capacity rate balance elapsed : K) : K := min capacity (balance + elapsed * rate)

/-- What is left and what was spent came from a full bucket and from what flowed in. -/
def Covered (capacity rate since now balance spent : K) : Prop :=
  balance + spent ≤ capacity + rate * (now - since)

section
variable {capacity rate since now later balance spent amount : K}

theorem covered_start (rate_nonneg : 0 ≤ rate) (elapsed : since ≤ now)
    (within : balance ≤ capacity) : Covered capacity rate since now balance 0 := by
  have flowed : 0 ≤ rate * (now - since) := mul_nonneg rate_nonneg (sub_nonneg.mpr elapsed)
  unfold Covered
  linarith

/-- Time passes: as much flows in as the bound grows by, or less where the bucket is full. -/
theorem Covered.pass (covered : Covered capacity rate since now balance spent) :
    Covered capacity rate since later (refill capacity rate balance (later - now)) spent := by
  have flowed : refill capacity rate balance (later - now) ≤ balance + (later - now) * rate :=
    min_le_right _ _
  unfold Covered at covered ⊢
  linear_combination flowed + covered

theorem Covered.spend (covered : Covered capacity rate since now balance spent) :
    Covered capacity rate since now (balance - amount) (spent + amount) := by
  unfold Covered at covered ⊢
  linear_combination covered

/-- Giving back is undone spending, clipped at the capacity. -/
theorem Covered.refund (covered : Covered capacity rate since now balance (spent + amount)) :
    Covered capacity rate since now (min capacity (balance + amount)) spent := by
  have clipped : min capacity (balance + amount) ≤ balance + amount := min_le_right _ _
  unfold Covered at covered ⊢
  linear_combination clipped + covered

theorem Covered.lower (covered : Covered capacity rate since now balance spent) {less : K}
    (le : less ≤ balance) : Covered capacity rate since now less spent := by
  unfold Covered at covered ⊢
  linarith

theorem monotone_bound (rate_nonneg : 0 ≤ rate) :
    Monotone fun u => capacity + rate * (u - since) := by
  intro u v later
  have scaled := mul_le_mul_of_nonneg_left later rate_nonneg
  linarith

theorem refill_le (within : balance ≤ capacity) (rate_nonneg : 0 ≤ rate) (elapsed : now ≤ later) :
    balance ≤ refill capacity rate balance (later - now) := by
  have flowed : 0 ≤ (later - now) * rate := mul_nonneg (sub_nonneg.mpr elapsed) rate_nonneg
  exact le_min within (by linarith)

end

/-! ### Ledgers -/

structure Entry (K : Type u) where
  amount : K
  due : K

def total (xs : List (Entry K)) : K := (xs.map Entry.amount).sum

omit [LinearOrder K] [IsStrictOrderedRing K] in
@[simp] theorem total_nil : total ([] : List (Entry K)) = 0 := rfl

omit [LinearOrder K] [IsStrictOrderedRing K] in
@[simp] theorem total_cons (x : Entry K) (xs : List (Entry K)) :
    total (x :: xs) = x.amount + total xs := by simp [total]

omit [LinearOrder K] [IsStrictOrderedRing K] in
@[simp] theorem total_append (xs ys : List (Entry K)) :
    total (xs ++ ys) = total xs + total ys := by simp [total]

/-- At every entry, what has been entered so far is within the bound for its due time. -/
def Paced (bound : K → K) : K → List (Entry K) → Prop
  | _, [] => True
  | before, x :: xs => before + x.amount ≤ bound x.due ∧ Paced bound (before + x.amount) xs

section
variable {bound : K → K} {before : K} {xs ys : List (Entry K)}

theorem paced_push {x : Entry K} (paced : Paced bound before xs)
    (last : before + (total xs + x.amount) ≤ bound x.due) : Paced bound before (xs ++ [x]) := by
  induction xs generalizing before with
  | nil => exact ⟨by simpa using last, trivial⟩
  | cons _ _ ih =>
    refine ⟨paced.1, ih paced.2 ?_⟩
    rw [total_cons] at last
    linear_combination last

theorem Paced.sublist (paced : Paced bound before xs) (nonneg : ∀ x ∈ xs, 0 ≤ x.amount)
    {less : K} (le : less ≤ before) (fewer : ys.Sublist xs) : Paced bound less ys := by
  induction fewer generalizing before less with
  | slnil => trivial
  | @cons ys xs x rest ih =>
    have amount := nonneg x mem_cons_self
    exact ih paced.2 (fun y mem => nonneg y (mem_cons_of_mem _ mem)) (by linarith)
  | @cons_cons ys xs x rest ih =>
    refine ⟨by linarith [paced.1], ?_⟩
    exact ih paced.2 (fun y mem => nonneg y (mem_cons_of_mem _ mem)) (by linarith)

/-- What is due by a time is within the bound for that time: it was all entered when the last
of it was. -/
theorem Paced.due_by (paced : Paced bound before xs) (monotone : Monotone bound)
    (nonneg : ∀ x ∈ xs, 0 ≤ x.amount) (t : K) : xs.filter (fun x => x.due ≤ t) = [] ∨
      before + total (xs.filter fun x => x.due ≤ t) ≤ bound t := by
  induction xs generalizing before with
  | nil => exact .inl rfl
  | cons x _ ih =>
    have amount := nonneg x mem_cons_self
    have rest := ih paced.2 fun y mem => nonneg y (mem_cons_of_mem _ mem)
    by_cases due : x.due ≤ t
    · right
      rw [filter_cons_of_pos (by simpa using due), total_cons]
      rcases rest with none | some
      · rw [none, total_nil]
        linarith [paced.1, monotone due]
      · linarith
    · rw [filter_cons_of_neg (by simpa using due)]
      exact rest.imp_right fun some => by linarith

end
end TokenBuckets
