import Mathlib.Algebra.GroupWithZero.Nat

/-!
# Runs of a partial labelled machine

A machine is a function `step : σ → α → Option σ`: the state after performing a label, or `none`
where the label is not enabled. Interleavings of concurrent parties are label lists, so a statement
about every interleaving is a statement about every list `exec` accepts.
-/
namespace Runs

open List Option

universe u v

variable {σ : Type u} {α : Type v}

/-- Execute the labels in order; `none` as soon as one of them is not enabled. -/
def exec (step : σ → α → Option σ) : σ → List α → Option σ
  | s, [] => some s
  | s, a :: as => (step s a).bind fun t => exec step t as

/-- `P` holds of the state and the label at every step of the run from `s`. -/
def AllSteps (step : σ → α → Option σ) (P : σ → α → Prop) : σ → List α → Prop
  | _, [] => True
  | s, a :: as => P s a ∧ ∀ t, step s a = some t → AllSteps step P t as

instance decidableExistsSome (o : Option σ) (P : σ → Prop) [DecidablePred P] :
    Decidable (∃ s, o = some s ∧ P s) :=
  inferInstanceAs (Decidable (∃ s ∈ o, P s))

instance decidableForallSome (o : Option σ) (P : σ → Prop) [DecidablePred P] :
    Decidable (∀ s, o = some s → P s) :=
  inferInstanceAs (Decidable (∀ s ∈ o, P s))

/-- A condition that can be checked at a state can be checked along a run. -/
instance decidableAllSteps (step : σ → α → Option σ) (P : σ → α → Prop)
    [∀ s a, Decidable (P s a)] : ∀ s as, Decidable (AllSteps step P s as)
  | _, [] => isTrue trivial
  | s, a :: as =>
    have := fun t => decidableAllSteps step P t as
    inferInstanceAs (Decidable (P s a ∧ ∀ t, step s a = some t → AllSteps step P t as))

section
variable (step : σ → α → Option σ)

@[simp] theorem exec_nil (s : σ) : exec step s [] = some s := rfl

theorem exec_cons (s t : σ) (a : α) (as : List α) :
    exec step s (a :: as) = some t ↔ ∃ u, step s a = some u ∧ exec step u as = some t := by
  simp only [exec, bind_eq_some_iff]

theorem exec_append (s t : σ) (as bs : List α) : exec step s (as ++ bs) = some t ↔
      ∃ u, exec step s as = some u ∧ exec step u bs = some t := by
  induction as generalizing s with
  | nil => simp
  | cons _ _ ih =>
    simp only [cons_append, exec_cons, ih]
    constructor
    · rintro ⟨v, first, u, left, right⟩
      exact ⟨u, ⟨v, first, left⟩, right⟩
    · rintro ⟨u, ⟨v, first, left⟩, right⟩
      exact ⟨v, first, u, left, right⟩

theorem allSteps_append (P : σ → α → Prop) (s u : σ) (as bs : List α)
    (reached : exec step s as = some u) (along : AllSteps step P s (as ++ bs)) :
    AllSteps step P s as ∧ AllSteps step P u bs := by
  induction as generalizing s with
  | nil =>
    simp only [exec_nil, some.injEq] at reached
    subst u
    exact ⟨trivial, along⟩
  | cons a as ih =>
    obtain ⟨v, first, rest⟩ := (exec_cons step s u a as).mp reached
    have tail := ih v rest (along.2 v first)
    refine ⟨⟨along.1, fun w taken => ?_⟩, tail.2⟩
    have same : v = w := some.inj (first.symm.trans taken)
    exact same ▸ tail.1

theorem allSteps_of_labels (P : σ → α → Prop) (s : σ) (as : List α) (all : ∀ a ∈ as, ∀ t, P t a) :
    AllSteps step P s as := by
  induction as generalizing s with
  | nil => trivial
  | cons a _ ih =>
    exact ⟨all a mem_cons_self s, fun t _ => ih t fun b mem => all b (mem_cons_of_mem _ mem)⟩

/-- Invariant rule for runs whose steps all meet a condition. -/
theorem invariant_along (P : σ → α → Prop) (Inv : σ → Prop)
    (preserved : ∀ s a t, P s a → Inv s → step s a = some t → Inv t) (s t : σ) (as : List α)
    (initial : Inv s) (along : AllSteps step P s as) (reached : exec step s as = some t) :
    Inv t := by
  induction as generalizing s with
  | nil =>
    simp only [exec_nil, some.injEq] at reached
    exact reached ▸ initial
  | cons a as ih =>
    obtain ⟨u, first, rest⟩ := (exec_cons step s t a as).mp reached
    exact ih u (preserved s a u along.1 initial first) (along.2 u first) rest

theorem invariant (Inv : σ → Prop) (preserved : ∀ s a t, Inv s → step s a = some t → Inv t)
    (s t : σ) (as : List α) (initial : Inv s) (reached : exec step s as = some t) : Inv t :=
  invariant_along step (fun _ _ => True) Inv (fun s a t _ => preserved s a t) s t as initial
    (allSteps_of_labels step _ s as fun _ _ _ => trivial) reached

/-- Conditions that agree in the states a run passes through agree along it. -/
theorem allSteps_iff (A P Q : σ → α → Prop) (Inv : σ → Prop)
    (preserved : ∀ s a t, A s a → Inv s → step s a = some t → Inv t)
    (agree : ∀ s a, A s a → Inv s → (P s a ↔ Q s a)) (s : σ) (as : List α) (initial : Inv s)
    (along : AllSteps step A s as) : AllSteps step P s as ↔ AllSteps step Q s as := by
  induction as generalizing s with
  | nil => rfl
  | cons a _ ih =>
    refine and_congr (agree s a along.1 initial) ?_
    refine forall_congr' fun t => imp_congr_right fun taken => ?_
    exact ih t (preserved s a t along.1 initial taken) (along.2 t taken)

/-- A property that a step keeps exactly when it meets a condition holds at the end of a run
exactly when it held at the start and every step met the condition. -/
theorem holds_iff_along (P : σ → α → Prop) (Inv Q : σ → Prop)
    (preserved : ∀ s a t, Inv s → step s a = some t → Inv t)
    (kept : ∀ s a t, Inv s → step s a = some t → (Q t ↔ Q s ∧ P s a)) (s t : σ) (as : List α)
    (initial : Inv s) (reached : exec step s as = some t) : Q t ↔ Q s ∧ AllSteps step P s as := by
  induction as generalizing s with
  | nil =>
    simp only [exec_nil, some.injEq] at reached
    simp [reached, AllSteps]
  | cons a as ih =>
    obtain ⟨u, first, rest⟩ := (exec_cons step s t a as).mp reached
    rw [ih u (preserved s a u initial first) rest, kept s a u initial first, and_assoc]
    refine and_congr_right fun _ => and_congr_right fun _ => ?_
    constructor
    · intro along v taken
      exact some.inj (first.symm.trans taken) ▸ along
    · intro along
      exact along u first

theorem related (rel : σ → σ → Prop) (refl : ∀ s, rel s s)
    (trans : ∀ s t u, rel s t → rel t u → rel s u) (single : ∀ s a t, step s a = some t → rel s t)
    (s t : σ) (as : List α) (reached : exec step s as = some t) : rel s t := by
  induction as generalizing s with
  | nil =>
    simp only [exec_nil, some.injEq] at reached
    exact reached ▸ refl s
  | cons a as ih =>
    obtain ⟨u, first, rest⟩ := (exec_cons step s t a as).mp reached
    exact trans s u t (single s a u first) (ih u rest)

end

/-! ### Processes by position

A state holds its processes in a list; a step of one process replaces its entry. -/

section
variable {β : Type u} {γ : Type v}

section
variable {xs : List β} {P : β → Prop} {x : β}

theorem forall_mem_concat (all : ∀ y ∈ xs, P y) (new : P x) : ∀ y ∈ xs ++ [x], P y := by
  intro y mem
  rcases mem_append.mp mem with old | last
  · exact all y old
  · exact mem_singleton.mp last ▸ new

variable {i : Nat}

theorem forall_mem_set (all : ∀ y ∈ xs, P y) (new : P x) : ∀ y ∈ xs.set i x, P y := by
  intro y mem
  rcases mem_or_eq_of_mem_set mem with old | rfl
  · exact all y old
  · exact new

variable {old new y : β} {label : β → γ} {j : Nat}

theorem forall_mem_set_iff (found : xs[i]? = some old) (same : P new ↔ P old) :
    (∀ y ∈ xs.set i new, P y) ↔ ∀ y ∈ xs, P y := by
  obtain ⟨bound, entry⟩ := List.getElem?_eq_some_iff.mp found
  constructor
  · intro all
    have back : (xs.set i new).set i old = xs := by
      rw [set_set, ← entry, set_getElem_self]
    have here : P new := all new (mem_set bound new)
    exact back ▸ forall_mem_set all (same.mp here)
  · intro all
    exact forall_mem_set all (same.mpr (all old (mem_of_getElem? found)))

theorem mem_set_here (new : β) (found : xs[i]? = some old) : new ∈ xs.set i new :=
  mem_set (List.getElem?_eq_some_iff.mp found).1 new

theorem exists_mem_set (found : xs[i]? = some old) (moved : P old → P new) (some_ : ∃ x ∈ xs, P x) :
    ∃ x ∈ xs.set i new, P x := by
  obtain ⟨x, mem, holds⟩ := some_
  obtain ⟨j, entry⟩ := getElem?_of_mem mem
  by_cases here : i = j
  · subst here
    rw [found, some.injEq] at entry
    exact ⟨new, mem_set_here new found, moved (entry ▸ holds)⟩
  · exact ⟨x, mem_iff_getElem?.mpr ⟨j, by simp [here, entry]⟩, holds⟩

theorem map_set_of_eq (label : β → γ) (found : xs[i]? = some old) (same : label new = label old) :
    (xs.set i new).map label = xs.map label := by
  obtain ⟨bound, entry⟩ := List.getElem?_eq_some_iff.mp found
  rw [map_set]
  apply ext_getElem?
  intro j
  rw [getElem?_set]
  split
  next here =>
    subst here
    simp [bound, entry, same]
  · rfl

theorem nodup_set (unique : (xs.map label).Nodup) (found : xs[i]? = some old)
    (same : label new = label old) : ((xs.set i new).map label).Nodup := by
  rw [map_set_of_eq label found same]
  exact unique

theorem nodup_push (unique : (xs.map label).Nodup) (fresh : ∀ y ∈ xs, label y ≠ label x) :
    ((xs ++ [x]).map label).Nodup := by
  rw [map_append]
  refine nodup_append.mpr ⟨unique, by simp, ?_⟩
  intro a old b new
  obtain ⟨y, mem, rfl⟩ := mem_map.mp old
  simp only [map_cons, map_nil, mem_singleton] at new
  exact new ▸ fresh y mem

theorem filter_set_of_not {P : β → Bool} (found : xs[i]? = some old)
    (out : P old = false) (still : P new = false) : (xs.set i new).filter P = xs.filter P := by
  induction xs generalizing i with
  | nil => rfl
  | cons _ _ ih =>
    cases i with
    | zero =>
      cases found
      simp [out, still]
    | succ i => rw [set_cons_succ, filter_cons, filter_cons, ih (i := i) found]

theorem getElem?_set_cases (entry : (xs.set i x)[j]? = some y) :
    j = i ∧ y = x ∨ j ≠ i ∧ xs[j]? = some y := by
  rw [getElem?_set] at entry
  split at entry
  next here =>
    split at entry
    · exact .inl ⟨here.symm, (some.inj entry).symm⟩
    · cases entry
  next away => exact .inr ⟨fun same => away same.symm, entry⟩

theorem getElem?_set_here (new : β) (found : xs[i]? = some old) : (xs.set i new)[i]? = some new :=
  getElem?_set_self (List.getElem?_eq_some_iff.mp found).1

theorem getElem?_append_of {ys : List β} (found : xs[i]? = some old) : (xs ++ ys)[i]? = some old := by
  rw [getElem?_append_left (List.getElem?_eq_some_iff.mp found).1, found]

theorem getElem?_concat_cases (found : (xs ++ [x])[i]? = some y) : xs[i]? = some y ∨ y = x := by
  rw [getElem?_append] at found
  split at found
  · exact .inl found
  · exact .inr (mem_singleton.mp (mem_of_getElem? found))

theorem mem_set_other (mem : y ∈ xs.set i x) : y = x ∨ ∃ j, j ≠ i ∧ xs[j]? = some y := by
  obtain ⟨j, entry⟩ := getElem?_of_mem mem
  exact (getElem?_set_cases entry).imp And.right fun old => ⟨j, old⟩

theorem sum_set_add (share : β → Nat) (new : β) (found : xs[i]? = some old) :
    ((xs.set i new).map share).sum + share old = (xs.map share).sum + share new := by
  induction xs generalizing i with
  | nil => cases found
  | cons _ _ ih =>
    cases i with
    | zero =>
      cases found
      simp only [set_cons_zero, map_cons, sum_cons]
      omega
    | succ i =>
      have tail := ih (i := i) found
      simp only [set_cons_succ, map_cons, sum_cons]
      omega

theorem countP_set_add (P : β → Bool) (new : β) (found : xs[i]? = some old) :
    (xs.set i new).countP P + (P old).toNat = xs.countP P + (P new).toNat := by
  have shares (ys : List β) : ys.countP P = (ys.map fun y => (P y).toNat).sum := by
    induction ys with
    | nil => rfl
    | cons y _ ih =>
      rw [countP_cons, ih, map_cons, sum_cons, Nat.add_comm]
      cases P y <;> rfl
  rw [shares, shares]
  exact sum_set_add (fun y => (P y).toNat) new found

theorem countP_le_one_iff {P : β → Bool} :
    xs.countP P ≤ 1 ↔ ∀ (i j : Nat) x y, xs[i]? = some x → xs[j]? = some y →
      P x = true → P y = true → i = j := by
  induction xs with
  | nil => simp
  | cons x rest ih =>
    have tail_none (y : β) (j : Nat) (entry : rest[j]? = some y) (selected : P y = true) :
        0 < rest.countP P :=
      countP_pos_iff.mpr ⟨y, mem_of_getElem? entry, selected⟩
    rw [countP_cons]
    constructor
    · intro few i j y z first second left right
      cases i with
      | zero =>
        cases first
        cases j with
        | zero => rfl
        | succ j =>
          have more := tail_none z j second right
          simp only [left, if_true] at few
          omega
      | succ i =>
        cases j with
        | zero =>
          cases second
          have more := tail_none y i first left
          simp only [right, if_true] at few
          omega
        | succ j =>
          have fewer : rest.countP P ≤ 1 := by omega
          exact congrArg (· + 1) (ih.mp fewer i j y z first second left right)
    · intro unique
      have tail : rest.countP P ≤ 1 := ih.mpr fun i j y z first second left right =>
        Nat.succ.inj (unique (i + 1) (j + 1) y z first second left right)
      split
      next selected =>
        have none_ : rest.countP P = 0 := countP_eq_zero.mpr fun y mem other => by
          obtain ⟨j, entry⟩ := getElem?_of_mem mem
          cases unique 0 (j + 1) x y rfl entry selected other
        omega
      · omega

theorem position_unique (unique : (xs.map label).Nodup) (first : xs[i]? = some x)
    (second : xs[j]? = some y) (same : label x = label y) : i = j := by
  obtain ⟨bound, entry⟩ := List.getElem?_eq_some_iff.mp first
  have labelled : (xs.map label)[i]? = (xs.map label)[j]? := by simp [first, second, same]
  exact (getElem?_inj (by simpa using bound) unique).mp labelled

theorem countP_lt_countP {p q : β → Bool} (weaker : ∀ x ∈ xs, p x = true → q x = true)
    (mem : y ∈ xs) (fails : p y = false) (meets : q y = true) : xs.countP p < xs.countP q := by
  obtain ⟨before, after, rfl⟩ := append_of_mem mem
  have left : before.countP p ≤ before.countP q := countP_mono_left fun x inside =>
    weaker x (mem_append_left _ inside)
  have right : after.countP p ≤ after.countP q := countP_mono_left fun x inside =>
    weaker x (mem_append_right _ (mem_cons_of_mem _ inside))
  simp only [countP_append, countP_cons, fails, meets, if_true, Bool.false_eq_true,
    if_false]
  omega

end

end

end Runs
