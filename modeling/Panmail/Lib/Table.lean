import Mathlib.Data.List.Nodup

/-!
# Tables with a primary key

A table is the list of its rows in storage order, together with the fact that no
two rows share a key. The operations are the statements a relational store runs
atomically: insert, update and delete by a condition, select. What a statement
does is stated through `lookup`, the row a key names.
-/
namespace Tables

open List

universe u v

/-- Rows whose keys are pairwise distinct. -/
structure Table {ρ : Type u} {κ : Type v} (key : ρ → κ) where
  rows : List ρ
  unique : (rows.map key).Nodup

namespace Table

variable {ρ : Type u} {κ : Type v} {key : ρ → κ}

def empty : Table key := ⟨[], nodup_nil⟩

variable {r : ρ} {p : ρ → Bool} {t : Table key}

section
variable [DecidableEq κ] {k : κ}

def lookup (t : Table key) (k : κ) : Option ρ := t.rows.find? fun r => decide (key r = k)

theorem mem_of_lookup (found : t.lookup k = some r) :
    r ∈ t.rows := mem_of_find?_eq_some found

theorem key_of_lookup (found : t.lookup k = some r) :
    key r = k := by simpa using find?_some found

theorem find_of_mem (rows : List ρ) (unique : (rows.map key).Nodup) (r : ρ)
    (mem : r ∈ rows) : rows.find? (fun x => decide (key x = key r)) = some r := by
  induction rows with
  | nil => simp at mem
  | cons x _ ih =>
    simp only [map_cons, nodup_cons] at unique
    rcases mem_cons.mp mem with rfl | later
    · simp
    · have different : key x ≠ key r := fun same =>
        unique.1 (same ▸ mem_map_of_mem later)
      simp [different, ih unique.2 later]

theorem lookup_iff : t.lookup k = some r ↔ r ∈ t.rows ∧ key r = k := by
  constructor
  · intro found
    exact ⟨mem_of_lookup found, key_of_lookup found⟩
  · rintro ⟨mem, rfl⟩
    exact find_of_mem t.rows t.unique r mem

theorem lookup_none_iff : t.lookup k = none ↔ ∀ r ∈ t.rows, key r ≠ k := by simp [lookup]

end

/-- `INSERT`, refused when the key is taken. -/
def insert? [DecidableEq κ] (t : Table key) (r : ρ) : Option (Table key) :=
  if fresh : key r ∉ t.rows.map key then
    some ⟨t.rows ++ [r], by
      rw [map_append, map_singleton, ← concat_eq_append]
      exact t.unique.concat fresh⟩
  else none

/-- `UPDATE ... SET f WHERE p`, for an assignment that leaves the key alone. -/
def updateWhere (t : Table key) (p : ρ → Bool) (f : ρ → ρ) (same : ∀ r, key (f r) = key r) :
    Table key where
  rows := t.rows.map fun r => if p r then f r else r
  unique := by
    have keys : (t.rows.map fun r => if p r then f r else r).map key = t.rows.map key := by
      rw [map_map]
      apply map_congr_left
      intro r _
      simp only [Function.comp_apply]
      split
      · exact same r
      · rfl
    exact keys ▸ t.unique

/-- `DELETE ... WHERE p`. -/
def deleteWhere (t : Table key) (p : ρ → Bool) : Table key where
  rows := t.rows.filter fun r => !p r
  unique := t.unique.sublist (filter_sublist.map key)

/-- `SELECT ... WHERE p`, in storage order. -/
def selectWhere (t : Table key) (p : ρ → Bool) : List ρ := t.rows.filter p

theorem mem_deleteWhere :
    r ∈ (t.deleteWhere p).rows ↔ r ∈ t.rows ∧ p r = false := by simp [deleteWhere]

theorem mem_selectWhere : r ∈ t.selectWhere p ↔ r ∈ t.rows ∧ p r = true := by simp [selectWhere]

section
variable [DecidableEq κ] {k : κ} {x : ρ} {s : Table key}

theorem insert?_rows (inserted : t.insert? r = some s) :
    s.rows = t.rows ++ [r] ∧ t.lookup (key r) = none := by
  unfold insert? at inserted
  split at inserted
  next fresh =>
    simp only [Option.some.injEq] at inserted
    subst s
    refine ⟨rfl, lookup_none_iff.mpr fun x mem same => ?_⟩
    exact fresh (same ▸ mem_map_of_mem mem)
  · simp at inserted

theorem lookup_insert? (inserted : t.insert? r = some s) (k : κ) :
    s.lookup k = if key r = k then some r else t.lookup k := by
  obtain ⟨rows, absent⟩ := insert?_rows inserted
  by_cases same : key r = k
  · subst same
    simp only [if_true]
    exact lookup_iff.mpr ⟨by simp [rows], rfl⟩
  · simp [lookup, rows, same]

theorem lookup_insert?_cases (inserted : t.insert? r = some s) (found : s.lookup k = some x) :
    key r = k ∧ x = r ∨ t.lookup k = some x := by
  rw [lookup_insert? inserted] at found
  split at found
  next same => exact .inl ⟨same, (Option.some.inj found).symm⟩
  · exact .inr found

theorem forall_insert? {P : κ → ρ → Prop} (inserted : t.insert? r = some s)
    (old : ∀ k x, t.lookup k = some x → P k x) (new : P (key r) r) (found : s.lookup k = some x) :
    P k x := by
  rcases lookup_insert?_cases inserted found with ⟨rfl, rfl⟩ | before
  · exact new
  · exact old k x before

section
variable (t : Table key) (p : ρ → Bool) (f : ρ → ρ) (same : ∀ r, key (f r) = key r) (k : κ)

theorem lookup_updateWhere : (t.updateWhere p f same).lookup k =
      (t.lookup k).map fun r => if p r then f r else r := by
  have keyed : ∀ r, key (if p r then f r else r) = key r := by
    intro r
    split
    · exact same r
    · rfl
  simp only [lookup, updateWhere, find?_map]
  congr 2
  funext r
  simp [keyed]

theorem lookup_updateWhere_cases : (t.updateWhere p f same).lookup k = t.lookup k ∨
      ∃ r, t.lookup k = some r ∧ p r = true ∧ (t.updateWhere p f same).lookup k = some (f r) := by
  rw [lookup_updateWhere]
  cases t.lookup k with
  | none => exact .inl rfl
  | some r =>
    cases chosen : p r with
    | false => exact .inl (by simp [chosen])
    | true => exact .inr ⟨r, rfl, chosen, by simp [chosen]⟩

end

theorem filter_named (rows : List ρ) (unique : (rows.map key).Nodup) (p : ρ → Bool)
    (k : κ) (named : ∀ r, p r = true → key r = k) :
    rows.filter p = ((rows.find? fun r => decide (key r = k)).filter p).toList := by
  induction rows with
  | nil => rfl
  | cons x xs ih =>
    simp only [map_cons, nodup_cons] at unique
    by_cases same : key x = k
    · have rest : xs.filter p = [] := by
        apply filter_eq_nil_iff.mpr
        intro y later chosen
        exact unique.1 (same ▸ named y chosen ▸ mem_map_of_mem later)
      cases chosen : p x <;> simp [same, rest, chosen, Option.filter]
    · have skipped : p x = false := by
        cases chosen : p x with
        | false => rfl
        | true => exact absurd (named x chosen) same
      simpa [same, skipped] using ih unique.2

section
variable (t : Table key) (p : ρ → Bool) (k : κ)

theorem selectWhere_named (named : ∀ r, p r = true → key r = k) :
    t.selectWhere p = ((t.lookup k).filter p).toList :=
  filter_named t.rows t.unique p k named

theorem lookup_deleteWhere : (t.deleteWhere p).lookup k = (t.lookup k).filter fun r => !p r := by
  cases found : t.lookup k with
  | none =>
    apply lookup_none_iff.mpr
    intro r mem
    exact lookup_none_iff.mp found r (mem_deleteWhere.mp mem).1
  | some r =>
    obtain ⟨mem, named⟩ := lookup_iff.mp found
    cases drop : p r with
    | false =>
      simp only [Option.filter_some, drop, Bool.not_false, if_true]
      exact lookup_iff.mpr ⟨mem_deleteWhere.mpr ⟨mem, drop⟩, named⟩
    | true =>
      simp only [Option.filter_some, drop, Bool.not_true, Bool.false_eq_true, if_false]
      apply lookup_none_iff.mpr
      intro x present equal
      obtain ⟨old, kept⟩ := mem_deleteWhere.mp present
      have twin : t.lookup k = some x := lookup_iff.mpr ⟨old, equal⟩
      rw [found, Option.some.injEq] at twin
      rw [← twin, drop] at kept
      cases kept

theorem lookup_deleteWhere_cases : (t.deleteWhere p).lookup k = t.lookup k ∨
      ∃ r, t.lookup k = some r ∧ p r = true ∧ (t.deleteWhere p).lookup k = none := by
  rw [lookup_deleteWhere]
  cases t.lookup k with
  | none => exact .inl rfl
  | some r =>
    cases gone : p r with
    | false => exact .inl (by simp [Option.filter, gone])
    | true => exact .inr ⟨r, rfl, gone, by simp [Option.filter, gone]⟩

variable {t p k} in
theorem lookup_of_deleteWhere (found : (t.deleteWhere p).lookup k = some r) :
    t.lookup k = some r := by
  rw [lookup_deleteWhere] at found
  exact (Option.filter_eq_some_iff.mp found).1

end

end

end Table

end Tables
