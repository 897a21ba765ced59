import Mathlib.Data.List.Basic
import Mathlib.Logic.Function.Iterate

/-!
# Undo and redo in the template builder

`historyReducer` keeps the designs before and after the present one. Designs are objects, compared
by identity; of the type that stands for them nothing but the comparison is used.
-/
namespace Panmail.Templates

open List

def coalesceMs : Int := 600

def maxHistory : Nat := 50

structure HistoryState (α : Type) where
  past : List α
  present : α
  future : List α
  lastCommitAt : Int
  deriving DecidableEq

inductive HistoryAction (α : Type) where
  | set (updater : α → α) (coalesce : Bool) (now : Int)
  | undo
  | redo
  | reset (design : α)

variable {α : Type}

def initHistory (present : α) : HistoryState α := ⟨[], present, [], 0⟩

/-- The edit is one with the edit before. -/
def HistoryState.amends (state : HistoryState α) (coalesce : Bool) (now : Int) : Bool :=
  coalesce && now - state.lastCommitAt < coalesceMs

def historyReducer [DecidableEq α] (state : HistoryState α) : HistoryAction α → HistoryState α
  | .set updater coalesce now =>
    let next := updater state.present
    if next = state.present then state
    else
      let past := if state.amends coalesce now then state.past else state.past ++ [state.present]
      ⟨if maxHistory < past.length then past.drop (past.length - maxHistory) else past, next, [], now⟩
  | .undo => match state.past.getLast? with
    | none => state
    | some previous => ⟨state.past.dropLast, previous, state.present :: state.future, 0⟩
  | .redo => match state.future with
    | [] => state
    | next :: future => ⟨state.past ++ [state.present], next, future, 0⟩
  | .reset design => initHistory design

/-- An edit that leaves the design as it is. -/
def HistoryAction.Idle (present : α) : HistoryAction α → Prop
  | .set updater _ _ => updater present = present
  | _ => False

/-- The clock of an edit has gone through the window. -/
def HistoryAction.Clocked : HistoryAction α → Prop
  | .set _ _ now => coalesceMs ≤ now
  | _ => True

/-- The step back that takes nothing with it but the edit. -/
def HistoryState.OwnStep (before after : HistoryState α) : Prop :=
  after.past.getLast? = some before.present

/-- The same designs, whenever the last edit was. -/
def HistoryState.Same (s t : HistoryState α) : Prop :=
  s.past = t.past ∧ s.present = t.present ∧ s.future = t.future

/-- What is kept: the bound, and that an edit with nothing before it starts from a zero clock. -/
structure HistoryState.Kept (s : HistoryState α) : Prop where
  bounded : s.past.length + s.future.length ≤ maxHistory
  started : s.past = [] → s.lastCommitAt = 0

theorem length_truncated (past : List α) : (if maxHistory < past.length then
    past.drop (past.length - maxHistory) else past).length = min past.length maxHistory := by
  split
  · rw [length_drop]
    omega
  · omega

theorem kept_initHistory (design : α) : (initHistory design).Kept := ⟨Nat.zero_le _, fun _ => rfl⟩

section
variable [DecidableEq α] {s t : HistoryState α} {updater : α → α} {coalesce : Bool} {now : Int}
  {action : HistoryAction α}

/-- An edit that is not one with the edit before can be undone on its own. -/
theorem own_of_separate (changes : updater s.present ≠ s.present)
    (separate : s.amends coalesce now = false) :
    s.OwnStep (historyReducer s (.set updater coalesce now)) := by
  simp only [HistoryState.OwnStep, historyReducer, if_neg changes, separate, Bool.false_eq_true,
    if_false]
  split
  next long =>
    have short : ¬ (s.past ++ [s.present]).length ≤ (s.past ++ [s.present]).length - maxHistory := by
      simp only [maxHistory] at long ⊢
      omega
    rw [List.getLast?_drop, if_neg short, List.getLast?_concat]
  · exact List.getLast?_concat

theorem undo_concat {past : List α} {previous : α} (is : s.past = past ++ [previous]) :
    historyReducer s .undo = ⟨past, previous, s.present :: s.future, 0⟩ := by
  simp [historyReducer, is]

theorem redo_cons {next : α} {future : List α} (is : s.future = next :: future) :
    historyReducer s .redo = ⟨s.past ++ [s.present], next, future, 0⟩ := by
  simp [historyReducer, is]

theorem HistoryState.Kept.reduce (kept : s.Kept) (clocked : action.Clocked) :
    (historyReducer s action).Kept := by
  cases action with
  | set updater coalesce now =>
    simp only [historyReducer]
    split
    · exact kept
    · have pushed : (if s.amends coalesce now then s.past else s.past ++ [s.present]) ≠ [] := by
        split
        next amends =>
          intro none
          -- the clock is at zero then, and no edit falls into the window after zero
          simp only [HistoryState.amends, kept.started none, Bool.and_eq_true, decide_eq_true_eq,
            Int.sub_zero] at amends
          exact absurd clocked (Int.not_le.mpr amends.2)
        · exact append_ne_nil_of_right_ne_nil _ (cons_ne_nil _ _)
      have some := length_pos_iff.mpr pushed
      refine ⟨?_, fun none => ?_⟩
      · rw [length_truncated]
        exact Nat.min_le_right _ _
      · have none := congrArg List.length none
        rw [length_truncated, maxHistory, length_nil] at none
        omega
  | undo =>
    rcases List.eq_nil_or_concat' s.past with none | ⟨past, previous, is⟩
    · simpa [historyReducer, none] using kept
    · have bounded := kept.bounded
      rw [is, length_append, length_singleton] at bounded
      rw [undo_concat is]
      exact ⟨by simp only [length_cons]; omega, fun _ => rfl⟩
  | redo =>
    cases is : s.future with
    | nil => simpa [historyReducer, is] using kept
    | cons next future =>
      have bounded := kept.bounded
      rw [is, length_cons] at bounded
      rw [redo_cons is]
      exact ⟨by simp only [length_append, length_singleton]; omega, fun _ => rfl⟩
  | reset design => exact kept_initHistory design

theorem redos_undos {k : Nat} (some : k ≤ s.past.length) :
    ((historyReducer · .redo)^[k] ((historyReducer · .undo)^[k] s)).Same s := by
  induction k generalizing s with
  | zero => exact ⟨rfl, rfl, rfl⟩
  | succ k ih =>
    rcases List.eq_nil_or_concat' s.past with none | ⟨past, previous, is⟩
    · simp [none] at some
    · rw [is, length_append, length_singleton] at some
      have undone := undo_concat is
      obtain ⟨past_, present, future⟩ := ih (s := historyReducer s .undo)
        (by rw [undone]; exact Nat.le_of_succ_le_succ some)
      rw [Function.iterate_succ_apply', Function.iterate_succ_apply]
      rw [undone] at past_ present future
      rw [undone, redo_cons future, past_, present]
      exact ⟨is.symm, rfl, rfl⟩

/-- After an undo, a redo that finds something to redo, or a reset, no edit is one with the edit
before. -/
theorem separate_after (kept : s.Kept)
    (kind : action = .undo ∨ action = .redo ∧ s.future ≠ [] ∨ ∃ design, action = .reset design)
    (clocked : coalesceMs ≤ now) : (historyReducer s action).amends coalesce now = false := by
  have zero : (historyReducer s action).lastCommitAt = 0 := by
    rcases kind with rfl | ⟨rfl, more⟩ | ⟨design, rfl⟩
    · simp only [historyReducer]
      split
      next none => exact kept.started (List.getLast?_eq_none_iff.mp none)
      · rfl
    · simp only [historyReducer]
      split
      next none => exact absurd none more
      · rfl
    · rfl
  simp [HistoryState.amends, zero, clocked]

theorem foldl_idle {idle : List (HistoryAction α)} (all : ∀ a ∈ idle, a.Idle s.present) :
    idle.foldl historyReducer s = s := by
  induction idle with
  | nil => rfl
  | cons a rest ih =>
    rw [forall_mem_cons] at all
    have same : historyReducer s a = s := by
      cases a with
      | set => exact if_pos all.1
      | _ => cases all.1
    rw [foldl_cons, same]
    exact ih all.2

end

/-- After any actions, no edit of which comes before the window has passed once: the two stacks are
bounded, and redos take undos back. The first edit that changes the design after an undo, a redo
that found something, or a reset is a step of its own, and so is every edit that was not coalesced;
undoing such a step restores the design before it. -/
theorem history_laws [DecidableEq α] (design : α) (actions : List (HistoryAction α))
    (clocked : ∀ a ∈ actions, a.Clocked) :
    let s := actions.foldl historyReducer (initHistory design)
    s.past.length + s.future.length ≤ maxHistory ∧
    (∀ k ≤ s.past.length,
      ((historyReducer · .redo)^[k] ((historyReducer · .undo)^[k] s)).Same s) ∧
    (∀ action (idle : List (HistoryAction α)) updater coalesce now,
      (action = .undo ∨ action = .redo ∧ s.future ≠ [] ∨ ∃ d, action = .reset d) →
      let t := historyReducer s action
      (∀ a ∈ idle, a.Idle t.present) → updater t.present ≠ t.present → coalesceMs ≤ now →
      t.OwnStep (historyReducer (idle.foldl historyReducer t) (.set updater coalesce now))) ∧
    ∀ updater coalesce now, updater s.present ≠ s.present → s.amends coalesce now = false →
      let t := historyReducer s (.set updater coalesce now)
      s.OwnStep t ∧ (historyReducer t .undo).present = s.present := by
  intro s
  have kept : s.Kept := by
    refine List.foldlRecOn actions historyReducer (kept_initHistory design) ?_
    exact fun _ kept a mem => kept.reduce (clocked a mem)
  refine ⟨kept.bounded, fun k => redos_undos, ?_, ?_⟩
  · intro action idle updater coalesce now kind t all changes late
    rw [foldl_idle all]
    exact own_of_separate changes (separate_after kept kind late)
  · intro updater coalesce now changes separate t
    have own : s.OwnStep t := own_of_separate changes separate
    refine ⟨own, ?_⟩
    simp only [historyReducer]
    rw [own]

theorem history_laws_typing : let s : HistoryState Nat := ⟨[0], 1, [], 1000⟩
    historyReducer (initHistory 0) (.set (fun _ => 1) true 1000) = s ∧
    (historyReducer (historyReducer s (.set (· + 1) true 1600)) .undo).present = 1 :=
  ⟨by decide, ((history_laws 0 [.set (fun _ => 1) true 1000] (by
    simp [HistoryAction.Clocked, coalesceMs])).2.2.2 (· + 1) true 1600 (by decide) (by decide)).2⟩

/-- A redo with nothing to redo is no break: the edit after it goes with the edit before it. -/
theorem coalesced_after_redo : ([.set (fun _ => 1) true 1000, .redo, .set (fun _ => 2) true 1100,
    .undo].foldl historyReducer (initHistory 0)).present = 0 := by decide

end Panmail.Templates
