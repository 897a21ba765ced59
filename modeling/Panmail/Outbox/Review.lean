import Panmail.Outbox.Payload

/-!
# Held messages and their review

The outbox row of a held message and the record a reviewer decides on, together, over
every run: what becomes claimable was released, what is decided stays decided, and a
prune takes no message whose review is open.
-/

namespace Panmail.Outbox

open Tables Runs List

/-! ### Every run -/

/-- The joint invariant of outbox and review queue. -/
structure Reviewed (w : World) : Prop where
  known : Known w
  queue : Queue w
  payload : Payload w

variable {lease : Time} {w t : World} {a : Action} {as : List Action} {record : String}

theorem reviewed_step (inv : Reviewed w) (h : w.step lease a = some t) : Reviewed t where
  known := inv.known.step h
  queue := inv.queue.step inv.known h
  payload := inv.payload.step inv.known inv.queue h

theorem reviewed_of_reachable (reached : Reachable lease w) : Reviewed w := by
  obtain ⟨as, run⟩ := reached
  exact invariant (World.step lease) Reviewed (fun _ _ _ inv h => reviewed_step inv h)
    World.init w as ⟨known_init, queue_init, payload_init⟩ run

/-- What is decided stays decided, and a hold stays on record. -/
structure Extends (w t : World) : Prop where
  transitions : ∀ x ∈ w.transitions, x ∈ t.transitions
  holds : ∀ x ∈ w.holds, x ∈ t.holds

theorem extends_step (h : w.step lease a = some t) : Extends w t := by
  have unchanged : Extends w w := ⟨fun _ mem => mem, fun _ mem => mem⟩
  cases step_cases h with
  | recordHold => exact ⟨fun _ mem => mem, fun _ mem => mem_append_left _ mem⟩
  | lost => exact unchanged
  | review | sweepUpdate => exact ⟨fun _ mem => mem_append_left _ mem, fun _ mem => mem⟩
  | _ => exact { unchanged with }

theorem extends_run (run : exec (World.step lease) w as = some t) : Extends w t :=
  related (World.step lease) Extends
    (fun _ => ⟨fun _ mem => mem, fun _ mem => mem⟩)
    (fun _ _ _ first second =>
      ⟨fun x mem => second.transitions x (first.transitions x mem),
        fun x mem => second.holds x (first.holds x mem)⟩)
    (fun _ _ _ h => extends_step h) w t as run

theorem reachable_append (reached : Reachable lease w)
    (run : exec (World.step lease) w as = some t) : Reachable lease t := by
  obtain ⟨before, first⟩ := reached
  exact ⟨before ++ as, (exec_append _ _ _ _ _).mpr ⟨w, first, run⟩⟩

theorem decision_unique (inv : Queue w) {first second : ReviewStatus}
    (one : (record, first) ∈ w.transitions) (two : (record, second) ∈ w.transitions) :
    first = second := by
  have same := inj_on_of_nodup_map inv.decidedOnce one two rfl
  exact congrArg Prod.snd same

theorem released_of_unheld (inv : Reviewed w) {message : String}
    (hold : (record, message) ∈ w.holds) {r : OutboxRow} (row : w.outbox.lookup message = some r)
    (left : r.status ≠ .held) : (record, .released) ∈ w.transitions := by
  rcases inv.payload.held _ hold with unreleased | ⟨released, _⟩
  · exact absurd (unreleased r row) left
  · exact released

/-- What the review queue promises about held outbound messages, at a state `w` and in
whatever follows it. -/
structure ReviewSafety (lease : Time) (w : World) : Prop where
  /-- No record is moved out of PENDING twice, and a status once decided never changes. -/
  decidedOnce : (w.transitions.map Prod.fst).Nodup ∧
    ∀ id m, w.reviews.lookup id = some m →
      (m.status = .pending → id ∉ w.transitions.map Prod.fst) ∧
      (m.status ≠ .pending → (id, m.status) ∈ w.transitions ∧
        ∀ as t m', exec (World.step lease) w as = some t → t.reviews.lookup id = some m' →
          m'.status = m.status)
  claimable : ∀ record message, (record, message) ∈ w.holds →
    ∀ r now, w.outbox.lookup message = some r → r.claimable now = true →
      (record, .released) ∈ w.transitions
  /-- The step that takes a row out of HELD is the write of a release that won. -/
  release : ∀ record message, (record, message) ∈ w.holds → ∀ a t r r',
    w.step lease a = some t → w.outbox.lookup message = some r → r.status = .held →
    t.outbox.lookup message = some r' → r'.status ≠ .held →
    (record, .released) ∈ w.transitions ∧ ∃ i nextRetryAt updatedAt call,
      a = .releaseWrite i nextRetryAt updatedAt ∧ w.reviewCalls[i]? = some call ∧
        call.recordID = record ∧ call.decision = .release
  refused : ∀ record message status, (record, message) ∈ w.holds →
    (record, status) ∈ w.transitions → status ≠ .released →
    ∀ as t r now, exec (World.step lease) w as = some t → t.outbox.lookup message = some r →
      r.claimable now = false
  pruned : ∀ record message, (record, message) ∈ w.holds → ∀ m, w.reviews.lookup record = some m →
    m.status = .pending → ∀ cutoff t, w.step lease (.pruneHeld cutoff) = some t →
      t.outbox.lookup message = w.outbox.lookup message

/-- In every interleaving of reviewers, sweeps, prunes and workers. -/
theorem review_safety (lease : Time) (as : List Action) (w : World)
    (run : exec (World.step lease) World.init as = some w) : ReviewSafety lease w := by
  have reached : Reachable lease w := ⟨as, run⟩
  have inv := reviewed_of_reachable reached
  refine ⟨⟨inv.queue.decidedOnce, ?_⟩, ?_, ?_, ?_, ?_⟩
  · intro id m row
    rcases inv.queue.status row with ⟨pending, fresh⟩ | ⟨closed, logged⟩
    · exact ⟨fun _ => fresh, fun decided => absurd pending decided⟩
    · refine ⟨fun pending => absurd pending closed, fun _ => ⟨logged, ?_⟩⟩
      -- later on the log still has this decision, and it has one for each record
      intro bs t m' rest later
      have next := reviewed_of_reachable (reachable_append reached rest)
      have still := (extends_run rest).transitions _ logged
      rcases next.queue.status later with ⟨_, fresh⟩ | ⟨_, logged'⟩
      · exact absurd (mem_map_of_mem still) fresh
      · exact decision_unique next.queue logged' still
  · intro record message hold r now row ok
    exact released_of_unheld inv hold row (claimable_not_held ok).1
  · intro record message hold a t r r' h row held row' left
    have drawn := (inv.known.hold _ hold).2
    have unreleased : Unreleased w.outbox message := by
      intro x found
      rw [row, Option.some.injEq] at found
      exact found ▸ held
    rcases unreleased_step inv.payload h drawn unreleased
      with stays | ⟨i, n, u, call, email, readAt, taken, found, writing, named⟩
    · exact absurd (stays r' row') left
    · -- the write belongs to a release of the record that holds this very message
      obtain ⟨decision, own⟩ := inv.queue.writes found writing
      have same : call.recordID = record :=
        congrArg Prod.fst (inv.queue.sameRecord own hold named)
      have logged := inv.queue.reviewed call (mem_of_getElem? found)
      rw [decision, same] at logged
      exact ⟨logged, i, n, u, call, taken, found, same, decision⟩
  · intro record message status hold logged other bs t r now rest row
    have next := reviewed_of_reachable (reachable_append reached rest)
    have ext := extends_run rest
    cases ok : r.claimable now with
    | false => rfl
    | true =>
      -- a claimable row was released, which is a second decision on the record
      have released := released_of_unheld next (ext.holds _ hold) row (claimable_not_held ok).1
      exact absurd (decision_unique next.queue (ext.transitions _ logged) released) other
  · intro record message hold m row pending cutoff t h
    cases h
    have undecided : record ∉ w.transitions.map Prod.fst := by
      rcases inv.queue.status row with ⟨_, fresh⟩ | ⟨closed, _⟩
      · exact fresh
      · exact absurd pending closed
    -- the prune's subquery finds the pending record, so the row is not selected
    obtain ⟨kept, stored, waiting, _, named⟩ := inv.queue.kept _ hold undecided
    rcases lookup_pruneHeld w.outbox w.reviews cutoff message with same | ⟨_, closed, _⟩
    · exact same
    · exact absurd waiting (closed kept (Table.mem_of_lookup stored) named)

def releaseTrace : List Action :=
  [.create ⟨"m", "t", "", .held, 0, 0, "", 0, 0⟩, .recordHold 0 "f" 0 none,
    .review "t" "f" .release "ann" 0 "", .reviewGet 0, .releaseRead 0, .releaseWrite 0 0 0]

theorem review_safety_releaseTrace : ∃ w, exec (World.step 120) World.init releaseTrace = some w ∧
    (∃ r, w.outbox.lookup "m" = some r ∧ r.claimable 0 = true) ∧
    ("f", .released) ∈ w.transitions := by
  have runs : (exec (World.step 120) World.init releaseTrace).any (fun w =>
      ((w.outbox.lookup "m").any fun r => r.claimable 0) && decide (("f", "m") ∈ w.holds))
      = true := by decide
  cases run : exec (World.step 120) World.init releaseTrace with
  | none => simp [run] at runs
  | some w =>
    simp only [run, Option.any_some, Bool.and_eq_true, decide_eq_true_eq] at runs
    cases row : w.outbox.lookup "m" with
    | none => simp [row] at runs
    | some r =>
      simp only [row, Option.any_some] at runs
      exact ⟨w, rfl, ⟨r, row, runs.1⟩,
        (review_safety 120 releaseTrace w run).claimable "f" "m" runs.2 r 0 row runs.1⟩

end Panmail.Outbox
