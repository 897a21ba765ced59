import Mathlib.Data.List.Sort
import Mathlib.Order.Basic

/-!
# Ordered key-value stores

A store maps keys to values and is read in key order: by a key, or by an iterator over the rows
between two bounds. A batch of writes is applied as a whole. In the last section a reader takes the
rows it wants up to a page's size and carries on from the key it stopped before.
-/
namespace KeyValue

open List

universe u v

/-- The rows, in key order. -/
structure Store (κ : Type u) (ν : Type v) [LinearOrder κ] where
  rows : List (κ × ν)
  sorted : rows.Pairwise fun a b => a.1 < b.1

variable {κ : Type u} {ν : Type v} [LinearOrder κ]

namespace Store

def empty : Store κ ν := ⟨[], List.Pairwise.nil⟩

def get (s : Store κ ν) (k : κ) : Option ν := (s.rows.find? fun r => r.1 = k).map Prod.snd

def set (s : Store κ ν) (k : κ) (v : ν) : Store κ ν where
  rows := s.rows.filter (fun r => r.1 < k) ++ (k, v) :: s.rows.filter fun r => k < r.1
  sorted := by
    refine pairwise_append.mpr ⟨s.sorted.filter _, ?_, ?_⟩
    · refine pairwise_cons.mpr ⟨fun r mem => ?_, s.sorted.filter _⟩
      simpa using (mem_filter.mp mem).2
    · intro a below b above
      have left : a.1 < k := by simpa using (mem_filter.mp below).2
      rcases mem_cons.mp above with rfl | rest
      · exact left
      · have right : k < b.1 := by simpa using (mem_filter.mp rest).2
        exact lt_trans left right

def delete (s : Store κ ν) (k : κ) : Store κ ν where
  rows := s.rows.filter fun r => r.1 ≠ k
  sorted := s.sorted.filter _

def scan (s : Store κ ν) (lower upper : κ) : List (κ × ν) :=
  s.rows.filter fun r => lower ≤ r.1 ∧ r.1 < upper

theorem keys_nodup (s : Store κ ν) : (s.rows.map Prod.fst).Nodup :=
  pairwise_map.mpr (s.sorted.imp fun lt => ne_of_lt lt)

variable {k : κ} {s t : Store κ ν} {v : ν}

theorem get_iff : s.get k = some v ↔ (k, v) ∈ s.rows := by
  unfold get
  constructor
  · intro found
    obtain ⟨r, first, rfl⟩ := Option.map_eq_some_iff.mp found
    have named : r.1 = k := by simpa using find?_some first
    exact named ▸ mem_of_find?_eq_some first
  · intro mem
    -- the key does not repeat, so the first row of the key is this one
    cases first : s.rows.find? fun r => r.1 = k with
    | none =>
      have missing := find?_eq_none.mp first (k, v) mem
      simp at missing
    | some r =>
      have named : r.1 = k := by simpa using find?_some first
      have same : r = (k, v) := inj_on_of_nodup_map s.keys_nodup
        (mem_of_find?_eq_some first) mem named
      simp [same]

theorem get_none_iff : s.get k = none ↔ ∀ v, (k, v) ∉ s.rows := by
  constructor
  · intro none_ v mem
    rw [get_iff.mpr mem] at none_
    cases none_
  · intro missing
    cases found : s.get k with
    | none => rfl
    | some v => exact absurd (get_iff.mp found) (missing v)

@[simp] theorem get_empty (k : κ) : (empty : Store κ ν).get k = none := rfl

theorem get_set (s : Store κ ν) (k : κ) (v : ν) (other : κ) :
    (s.set k v).get other = if other = k then some v else s.get other := by
  split
  next same =>
    subst same
    exact get_iff.mpr (by simp [set])
  next away =>
    cases found : s.get other with
    | none =>
      apply get_none_iff.mpr
      intro w mem
      have missing := get_none_iff.mp found w
      simp only [set, mem_append, mem_cons, mem_filter, Prod.mk.injEq] at mem
      rcases mem with below | ⟨same, _⟩ | above
      · exact missing below.1
      · exact away same
      · exact missing above.1
    | some =>
      apply get_iff.mpr
      have mem := get_iff.mp found
      rcases lt_or_gt_of_ne away with below | above
      · simp [set, mem, below]
      · simp [set, mem, above]

theorem get_delete (s : Store κ ν) (k other : κ) :
    (s.delete k).get other = if other = k then none else s.get other := by
  split
  next same =>
    subst same
    apply get_none_iff.mpr
    simp [delete]
  next away =>
    cases found : s.get other with
    | none =>
      apply get_none_iff.mpr
      intro w mem
      exact get_none_iff.mp found w (mem_filter.mp mem).1
    | some =>
      apply get_iff.mpr
      simp [delete, get_iff.mp found, away]

theorem ext_get (same : ∀ k, s.get k = t.get k) : s = t := by
  have rows : s.rows = t.rows := by
    have irreflexive : Std.Irrefl fun a b : κ × ν => a.1 < b.1 := ⟨fun a => lt_irrefl a.1⟩
    have antisymmetric : Std.Antisymm fun a b : κ × ν => a.1 < b.1 :=
      ⟨fun a b first second => absurd second (lt_asymm first)⟩
    refine List.Pairwise.eq_of_mem_iff s.sorted t.sorted fun r => ?_
    rw [← get_iff (k := r.1) (v := r.2), ← get_iff, same]
  cases s
  cases t
  subst rows
  rfl

theorem rows_sublist (less : ∀ k v, t.get k = some v → s.get k = some v) :
    t.rows.Sublist s.rows := by
  have antisymmetric : Std.Antisymm fun a b : κ × ν => a.1 < b.1 :=
    ⟨fun a b first second => absurd second (lt_asymm first)⟩
  have inside : t.rows ⊆ s.rows := fun r mem => get_iff.mp (less r.1 r.2 (get_iff.mpr mem))
  have nodup : t.rows.Nodup := List.Nodup.of_map Prod.fst t.keys_nodup
  exact sublist_of_subperm_of_pairwise (subperm_of_subset nodup inside) t.sorted s.sorted

theorem mem_scan {lower upper : κ} :
    (k, v) ∈ s.scan lower upper ↔ s.get k = some v ∧ lower ≤ k ∧ k < upper := by
  simp [scan, get_iff]

theorem scan_sorted (s : Store κ ν) (lower upper : κ) :
    (s.scan lower upper).Pairwise fun a b => a.1 < b.1 :=
  s.sorted.filter _

end Store

/-! ### Batches -/

inductive Op (κ : Type u) (ν : Type v) where
  | set (k : κ) (v : ν)
  | delete (k : κ)

def Op.key : Op κ ν → κ
  | .set k _ => k
  | .delete k => k

def Op.apply (s : Store κ ν) : Op κ ν → Store κ ν
  | .set k v => s.set k v
  | .delete k => s.delete k

/-- What the key has after the operation. -/
def Op.value : Op κ ν → Option ν
  | .set _ v => some v
  | .delete _ => none

def Store.commit (s : Store κ ν) (batch : List (Op κ ν)) : Store κ ν := batch.foldl Op.apply s

section
variable {s : Store κ ν} {batch more : List (Op κ ν)} {op : Op κ ν} {k : κ}

theorem get_apply (s : Store κ ν) (op : Op κ ν) (k : κ) :
    (op.apply s).get k = if k = op.key then op.value else s.get k := by
  cases op with
  | set other v => exact s.get_set other v k
  | delete other => exact s.get_delete other k

theorem commit_append : s.commit (batch ++ more) = (s.commit batch).commit more :=
  foldl_append

theorem get_commit_untouched (away : ∀ op ∈ batch, op.key ≠ k) :
    (s.commit batch).get k = s.get k := by
  induction batch generalizing s with
  | nil => rfl
  | cons op _ ih =>
    have other : k ≠ op.key := fun same => away op mem_cons_self same.symm
    have first : (op.apply s).get k = s.get k := by rw [get_apply, if_neg other]
    exact (ih fun x mem => away x (mem_cons_of_mem _ mem)).trans first

theorem get_commit_congr {t : Store κ ν} (same : s.get k = t.get k) :
    (s.commit batch).get k = (t.commit batch).get k := by
  induction batch generalizing s t with
  | nil => exact same
  | cons _ _ ih =>
    refine ih ?_
    rw [get_apply, get_apply, same]

/-- The second store is the first without the rows of some keys. -/
def Without (ks : List κ) (s t : Store κ ν) : Prop :=
  ∀ k, (k ∈ ks → t.get k = none) ∧ (k ∉ ks → t.get k = s.get k)

theorem without_commit (ks : List κ) : Without ks s (s.commit (ks.map Op.delete)) := by
  induction ks generalizing s with
  | nil =>
    intro k
    simp [Store.commit]
  | cons other rest ih =>
    intro k
    have tail := @ih (s.delete other) k
    have first := s.get_delete other k
    constructor
    · intro mem
      by_cases later : k ∈ rest
      · exact tail.1 later
      · rcases mem_cons.mp mem with here | inside
        · rw [if_pos here] at first
          exact (tail.2 later).trans first
        · exact absurd inside later
    · intro kept
      simp only [mem_cons, not_or] at kept
      rw [if_neg kept.1] at first
      exact (tail.2 kept.2).trans first

/-- Deletions that go past a batch that does not touch their keys. -/
theorem without_commit_under {ks : List κ} (away : ∀ op ∈ batch, op.key ∉ ks) :
    Without ks (s.commit batch) ((s.commit (ks.map Op.delete)).commit batch) := by
  intro k
  have under := without_commit (s := s) ks k
  constructor
  · intro gone
    have untouched : ∀ op ∈ batch, op.key ≠ k := fun op mem same => away op mem (same ▸ gone)
    exact (get_commit_untouched untouched).trans (under.1 gone)
  · intro kept
    exact get_commit_congr (under.2 kept)

end

/-! ### Paging -/

/-- Take wanted rows until there are `size` of them: the rows taken, and the rest from the one the
iterator stands at. -/
def page (wanted : κ × ν → Bool) : Nat → List (κ × ν) → List (κ × ν) × List (κ × ν)
  | 0, rows => ([], rows)
  | _ + 1, [] => ([], [])
  | size + 1, r :: rest =>
    if wanted r then
      let (taken, left) := page wanted size rest
      (r :: taken, left)
    else page wanted (size + 1) rest

def startAt (rows : List (κ × ν)) : Option κ → List (κ × ν)
  | some k => rows.filter fun r => k ≤ r.1
  | none => rows

/-- One page from a token: what is taken, and the key it stopped before, if there is one. -/
def pageFrom (wanted : κ × ν → Bool) (size : Nat) (rows : List (κ × ν)) (token : Option κ) :
    List (κ × ν) × Option κ :=
  let (taken, left) := page wanted size (startAt rows token)
  (taken, left.head?.map Prod.fst)

/-- Follow the tokens until there is none, for at most so many pages. -/
def follow (wanted : κ × ν → Bool) (size : Nat) (rows : List (κ × ν)) :
    Nat → Option κ → Option (List (κ × ν))
  | 0, _ => none
  | pages + 1, token =>
    match pageFrom wanted size rows token with
    | (taken, none) => some taken
    | (taken, some next) => (follow wanted size rows pages (some next)).map (taken ++ ·)

section
variable {wanted : κ × ν → Bool} {size : Nat} {rows left : List (κ × ν)}

omit [LinearOrder κ] in
/-- A page takes the wanted rows of a prefix, and leaves the rest. -/
theorem page_spec (wanted : κ × ν → Bool) (size : Nat) (rows : List (κ × ν)) :
    ∃ before, rows = before ++ (page wanted size rows).2 ∧
      (page wanted size rows).1 = before.filter wanted := by
  induction rows generalizing size with
  | nil =>
    cases size with
    | zero | succ => exact ⟨[], rfl, rfl⟩
  | cons r _ ih =>
    cases size with
    | zero => exact ⟨[], rfl, rfl⟩
    | succ size =>
      by_cases want : wanted r = true
      · obtain ⟨before, split_, taken⟩ := ih size
        refine ⟨r :: before, ?_, ?_⟩
        · simp [page, want, ← split_]
        · simp [page, want, taken]
      · obtain ⟨before, split_, taken⟩ := ih (size + 1)
        refine ⟨r :: before, ?_, ?_⟩
        · simp [page, want, ← split_]
        · simp [page, want, taken]

omit [LinearOrder κ] in
theorem page_taken (wanted : κ × ν → Bool) (size : Nat) (rows : List (κ × ν)) :
    (page wanted size rows).1 = (rows.filter wanted).take size := by
  induction rows generalizing size with
  | nil => cases size <;> rfl
  | cons r _ ih =>
    cases size with
    | zero => rfl
    | succ =>
      by_cases want : wanted r = true
      · simp [page, want, ih]
      · simp [page, want, ih]

omit [LinearOrder κ] in
theorem page_shorter (positive : 0 < size) (stops : (page wanted size rows).2 ≠ []) :
    (page wanted size rows).2.length < rows.length := by
  induction rows with
  | nil =>
    cases size with
    | zero => cases positive
    | succ => exact absurd rfl stops
  | cons r rest ih =>
    cases size with
    | zero => cases positive
    | succ size =>
      by_cases want : wanted r = true
      · obtain ⟨before, split_, _⟩ := page_spec wanted size rest
        have shorter := congrArg List.length split_
        simp only [page, want, if_true, length_append, length_cons] at shorter ⊢
        omega
      · simp only [page, want, if_false, length_cons, Bool.false_eq_true] at stops ⊢
        exact Nat.lt_succ_of_lt (ih stops)

variable {token : Option κ} {r : κ × ν} {before : List (κ × ν)}

theorem mem_of_startAt (mem : r ∈ startAt rows token) : r ∈ rows := by
  cases token with
  | none => exact mem
  | some => exact (mem_filter.mp mem).1

theorem mem_pageFrom
    (taken : r ∈ (pageFrom wanted size rows token).1) : r ∈ rows ∧ wanted r = true := by
  obtain ⟨before, split_, filtered⟩ := page_spec wanted size (startAt rows token)
  have inside : r ∈ (page wanted size (startAt rows token)).1 := taken
  rw [filtered] at inside
  obtain ⟨mem, want⟩ := mem_filter.mp inside
  have whole : r ∈ startAt rows token := by
    rw [split_]
    exact mem_append_left _ mem
  exact ⟨mem_of_startAt whole, want⟩

theorem next_of_pageFrom {k : κ}
    (next : (pageFrom wanted size rows token).2 = some k) : ∃ r ∈ rows, r.1 = k := by
  obtain ⟨before, split_, _⟩ := page_spec wanted size (startAt rows token)
  obtain ⟨r, head, named⟩ := Option.map_eq_some_iff.mp next
  have whole : r ∈ startAt rows token := by
    rw [split_]
    exact mem_append_right before (mem_of_head? head)
  exact ⟨r, mem_of_startAt whole, named⟩

theorem filter_from (sorted : (before ++ r :: left).Pairwise fun a b => a.1 < b.1) :
    (before ++ r :: left).filter (fun x => r.1 ≤ x.1) = r :: left := by
  obtain ⟨_, after, across⟩ := pairwise_append.mp sorted
  have none_ : before.filter (fun x => r.1 ≤ x.1) = [] := by
    apply filter_eq_nil_iff.mpr
    intro x mem
    simpa using across x mem r mem_cons_self
  have all : left.filter (fun x => r.1 ≤ x.1) = left := by
    apply filter_eq_self.mpr
    intro x mem
    simpa using le_of_lt ((pairwise_cons.mp after).1 x mem)
  rw [filter_append, none_, filter_cons_of_pos (by simp), all, nil_append]

/-- Following the tokens from a place in the rows takes all the wanted rows from there on. -/
theorem follow_startAt (positive : 0 < size) (sorted : rows.Pairwise fun a b => a.1 < b.1)
    (pages : Nat) (token : Option κ) (place : rows = before ++ startAt rows token)
    (enough : (startAt rows token).length < pages) :
    follow wanted size rows pages token = some ((startAt rows token).filter wanted) := by
  induction pages generalizing token before with
  | zero => cases enough
  | succ _ ih =>
    obtain ⟨mid, split_, taken⟩ := page_spec wanted size (startAt rows token)
    simp only [follow, pageFrom]
    cases left : (page wanted size (startAt rows token)).2 with
    | nil =>
      rw [left, append_nil] at split_
      simp [taken, ← split_]
    | cons r rest =>
      -- the next page starts at the row this one stopped before
      rw [left] at split_
      have shorter : (r :: rest).length < (startAt rows token).length := by
        rw [← left]
        exact page_shorter positive (by simp [left])
      have whole : rows = (before ++ mid) ++ r :: rest := by
        rw [append_assoc, ← split_]
        exact place
      have next_ : startAt rows (some r.1) = r :: rest := by
        have from_ := filter_from (whole ▸ sorted)
        rw [← whole] at from_
        exact from_
      have tail := ih (some r.1) (next_.symm ▸ whole) (by rw [next_]; omega)
      rw [next_] at tail
      simp only [head?_cons, Option.map_some, tail, taken]
      rw [split_, filter_append]

theorem follow_all (positive : 0 < size) (sorted : rows.Pairwise fun a b => a.1 < b.1)
    {pages : Nat} (enough : rows.length < pages) :
    follow wanted size rows pages none = some (rows.filter wanted) :=
  follow_startAt positive sorted pages none (nil_append _).symm enough

end
end KeyValue
