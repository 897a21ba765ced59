import Panmail.Outbox.ReviewQueue

/-!
# The row of a held message

A held message waits in the outbox. Its row and its review record are written by separate
statements, each of which can fail or come late; the row follows the record all the same.
-/

namespace Panmail.Outbox

open Tables Runs List OutboxUpdate

/-! ### The row follows the record -/

/-- No row of this message has left the quarantine. -/
def Unreleased (t : OutboxTable) (id : String) : Prop :=
  ∀ r, t.lookup id = some r → r.status = .held

/-- The outbox side of a hold: a row leaves HELD only as the last act of the release
that was decided for it. -/
structure Payload (w : World) : Prop where
  claimed : ∀ {id r}, w.outbox.lookup id = some r →
    r.claimToken ≠ none ∨ r.claimedUntil ≠ none → r.status = .sending
  pass : ∀ p ∈ w.passes, ∀ r, w.outbox.lookup p.email.id = some r → r.status ≠ .held
  waiting : ∀ c ∈ w.holdCalls, c.recorded = false → Unreleased w.outbox c.messageID
  held : ∀ x ∈ w.holds, Unreleased w.outbox x.2 ∨
    (x.1, .released) ∈ w.transitions ∧ ∀ c ∈ w.reviewCalls, c.recordID = x.1 → c.phase = .done

theorem payload_init : Payload World.init where
  claimed := nofun
  pass := fun _ mem => nomatch mem
  waiting := fun _ mem => nomatch mem
  held := nofun

section
variable {lease : Time} {w t : World} {a : Action} {r : OutboxRow} {id : String}

theorem claimable_not_held {now : Time} (ok : r.claimable now = true) :
    r.status ≠ .held ∧ r.status ≠ .failed := by
  rcases claimable_cases ok with status | status | ⟨status, _⟩ <;> simp [status]

theorem payload_claimed (inv : Payload w) (h : w.step lease a = some t)
    (row : t.outbox.lookup id = some r) (claim : r.claimToken ≠ none ∨ r.claimedUntil ≠ none) :
    r.status = .sending := by
  have change := row_change h id
  rw [row] at change
  generalize before : w.outbox.lookup id = old at change
  cases change with
  | same => exact inv.claimed before claim
  | created => simp [OutboxRow.new] at claim
  | claimed => rfl
  | renewed _ _ _ _ _ _ _ _ _ sending => exact sending
  | settled _ _ _ _ write _ _ _ _ _ _ result =>
    cases write with
    | update =>
      cases result
      simp [apply] at claim
    | delete => cases result
  | released => simp [apply] at claim

theorem unheld_step (h : w.step lease a = some t) (known : id ∈ w.messageIDs)
    (unheld : ∀ r, w.outbox.lookup id = some r → r.status ≠ .held) (r : OutboxRow)
    (row : t.outbox.lookup id = some r) : r.status ≠ .held := by
  have change := row_change h id
  rw [row] at change
  generalize before : w.outbox.lookup id = old at change
  cases change with
  | same => exact unheld r before
  | created _ taken named =>
    -- a message is created under an id of its own, so not this one
    subst taken
    cases step_cases h with
    | create _ _ fresh => exact absurd (named ▸ known) fresh
  | claimed => simp [OutboxRow.claim]
  | renewed _ _ _ _ _ _ _ _ _ sending => simp [sending]
  | settled _ _ _ _ write _ _ _ _ _ _ result =>
    cases write with
    | update _ settles =>
      cases result
      rcases settles with status | status <;> simp [apply, status]
    | delete => cases result
  | released => simp [apply, releaseUpdate]

/-- The step is the last act of a release, on the row of this message. -/
def Releases (w : World) (a : Action) (id : String) : Prop :=
  ∃ i nextRetryAt updatedAt call email readAt, a = .releaseWrite i nextRetryAt updatedAt ∧
    w.reviewCalls[i]? = some call ∧ call.phase = .writing email readAt ∧ email.id = id

theorem unreleased_step (inv : Payload w) (h : w.step lease a = some t)
    (known : id ∈ w.messageIDs) (unreleased : Unreleased w.outbox id) :
    Unreleased t.outbox id ∨ Releases w a id := by
  by_cases release : Releases w a id
  · exact .inr release
  left
  intro r row
  have change := row_change h id
  rw [row] at change
  generalize before : w.outbox.lookup id = old at change
  cases change with
  | same => exact unreleased r before
  | created _ taken named =>
    subst taken
    cases step_cases h with
    | create _ _ fresh => exact absurd (named ▸ known) fresh
  | claimed r _ _ _ _ _ _ _ ok => exact absurd (unreleased r before) (claimable_not_held ok).1
  | renewed r _ _ _ _ _ _ _ _ sending =>
    rw [unreleased r before] at sending
    cases sending
  | settled r _ _ p _ _ _ _ found named settling =>
    -- a settling pass claimed its row, and what is held is never claimed
    have busy := inv.pass p (mem_of_getElem? found) r (named ▸ before)
    exact absurd (unreleased r before) busy
  | released _ i nextRetryAt updatedAt call email readAt taken found writing named =>
    exact absurd ⟨i, nextRetryAt, updatedAt, call, email, readAt, taken, found, writing, named⟩
      release

theorem payload_releaseWrite (known : Known w) (queue : Queue w) (inv : Payload w)
    {i : Nat} {nextRetryAt updatedAt : Time}
    (h : w.step lease (.releaseWrite i nextRetryAt updatedAt) = some t) : Payload t := by
  have claimed : ∀ {id r}, t.outbox.lookup id = some r → _ := payload_claimed inv h
  have unheld := fun p mem => unheld_step h (known.pass p mem) (inv.pass p mem)
  have stepped := step_cases h
  generalize world : t = after at stepped
  cases stepped with
  | releaseWrite _ _ _ call email _ found writing =>
    obtain ⟨release, hold⟩ := queue.writes found writing
    -- the message whose row is written is the one whose record was released
    have stays : ∀ id, id ∈ w.messageIDs → id ≠ email.id → Unreleased w.outbox id →
        Unreleased t.outbox id := by
      intro id drawn away unreleased
      rcases unreleased_step inv h drawn unreleased
        with stays | ⟨_, _, _, c, e, _, same, found', writing', named⟩
      · exact stays
      · cases same
        rw [found, Option.some.injEq] at found'
        subst found'
        rw [writing] at writing'
        cases writing'
        exact absurd named.symm away
    subst world
    refine { claimed := claimed, pass := unheld, waiting := ?_, held := ?_ }
    · intro c open_ unrecorded
      refine stays c.messageID (known.holdCall c open_) (fun same => ?_)
        (inv.waiting c open_ unrecorded)
      -- a message whose record is still to be written has none to release
      exact queue.unrecorded c open_ unrecorded (mem_map.mpr ⟨_, hold, same.symm⟩)
    · intro x listed
      have logged := queue.reviewed call (mem_of_getElem? found)
      rw [release] at logged
      by_cases same : x.2 = email.id
      · -- one record per message: `x` is the record this call released
        have one : x = (call.recordID, email.id) := queue.sameRecord listed hold same
        subst one
        refine .inr ⟨logged, ?_⟩
        intro c changed named
        rcases mem_set_other changed with rfl | ⟨j, away, entry⟩
        · rfl
        · exact absurd (position_unique queue.reviewOnce entry found named) away
      · rcases inv.held x listed with unreleased | ⟨released, closed⟩
        · exact .inl (stays x.2 (known.hold x listed).2 same unreleased)
        · refine .inr ⟨released, forall_mem_set closed fun named => rfl⟩

/-- The row of a hold has not left the quarantine, or its release is over. -/
def Followed (w : World) (transitions : List (String × ReviewStatus)) (calls : List ReviewCall)
    (x : String × String) : Prop :=
  x.2 ∈ w.messageIDs ∧ Unreleased w.outbox x.2 ∨
    (x.1, .released) ∈ transitions ∧ ∀ c ∈ calls, c.recordID = x.1 → c.phase = .done

theorem payload_frame (known : Known w) (inv : Payload w) (h : w.step lease a = some t)
    (notRelease : ∀ i n u, a ≠ .releaseWrite i n u)
    (passes : ∀ p ∈ t.passes, p.email.id ∈ w.messageIDs ∧
      ∀ r, w.outbox.lookup p.email.id = some r → r.status ≠ .held)
    (waiting : ∀ c ∈ t.holdCalls, c.recorded = false →
      c ∈ w.holdCalls ∨ Unreleased t.outbox c.messageID)
    (held : ∀ x ∈ t.holds, Followed w t.transitions t.reviewCalls x) : Payload t := by
  have stays : ∀ id, id ∈ w.messageIDs → Unreleased w.outbox id → Unreleased t.outbox id := by
    intro id drawn unreleased
    rcases unreleased_step inv h drawn unreleased with stays | ⟨i, n, u, _, _, _, same, _⟩
    · exact stays
    · exact absurd same (notRelease i n u)
  refine { claimed := payload_claimed inv h, pass := ?_, waiting := ?_, held := ?_ }
  · exact fun p mem => unheld_step h (passes p mem).1 (passes p mem).2
  · intro c mem unrecorded
    rcases waiting c mem unrecorded with old | done
    · exact stays c.messageID (known.holdCall c old) (inv.waiting c old unrecorded)
    · exact done
  · intro x mem
    rcases held x mem with ⟨drawn, unreleased⟩ | released
    · exact .inl (stays x.2 drawn unreleased)
    · exact .inr released

theorem Payload.step (known : Known w) (queue : Queue w) (inv : Payload w)
    (h : w.step lease a = some t) : Payload t := by
  have passes : ∀ p ∈ w.passes, p.email.id ∈ w.messageIDs ∧
      ∀ r, w.outbox.lookup p.email.id = some r → r.status ≠ .held :=
    fun p mem => ⟨known.pass p mem, inv.pass p mem⟩
  have held : ∀ x ∈ w.holds, Followed w w.transitions w.reviewCalls x := by
    intro x mem
    rcases inv.held x mem with unreleased | released
    · exact .inl ⟨(known.hold x mem).2, unreleased⟩
    · exact .inr released
  -- a call that is still open is not one for a completed release
  have call_held : ∀ (i : Nat) (call new : ReviewCall), w.reviewCalls[i]? = some call →
      call.phase ≠ .done → new.recordID = call.recordID →
      ∀ x ∈ w.holds, Followed w w.transitions (w.reviewCalls.set i new) x := by
    intro i call new found open_ same x mem
    rcases held x mem with unreleased | ⟨released, closed⟩
    · exact .inl unreleased
    · refine .inr ⟨released, forall_mem_set closed fun named => ?_⟩
      exact absurd (closed call (mem_of_getElem? found) (same ▸ named)) open_
  have frame := payload_frame known inv h
  cases step_cases h with
  | create _ _ _ _ inserted =>
    refine frame (by simp) passes ?_ held
    simp only
    split
    next status =>
      -- the call starts for a row written as HELD
      refine forall_mem_concat (fun c old _ => .inl old) fun _ => .inr fun r row => ?_
      simp only [Table.lookup_insert? inserted, OutboxRow.new, if_true] at row
      cases row
      exact status
    · exact fun c mem _ => .inl mem
  | recordHold _ _ _ _ call _ found unrecorded =>
    have pending := mem_of_getElem? found
    refine frame (by simp) passes ?_ ?_
    · intro c mem unrecorded
      rcases mem_set_other mem with rfl | ⟨j, _, entry⟩
      · cases unrecorded
      · exact .inl (mem_of_getElem? entry)
    · exact forall_mem_concat held
        (.inl ⟨known.holdCall call pending, inv.waiting call pending unrecorded⟩)
  | claimList =>
    refine frame (by simp) (forall_mem_append.mpr ⟨passes, ?_⟩)
      (fun c mem _ => .inl mem) held
    intro p new
    obtain ⟨email, listed, rfl⟩ := mem_map.mp new
    obtain ⟨r, row, token, _⟩ := mem_listClaimed.mp listed
    have sending := inv.claimed row (.inl (by simp [token]))
    refine ⟨known.row row, fun r' row' => ?_⟩
    cases row'.symm.trans row
    simp [sending]
  | pass _ _ p _ _ found moved =>
    obtain ⟨_, same, _⟩ := Pass.step_cases moved
    refine frame (by simp) ?_ (fun c mem _ => .inl mem) held
    exact forall_mem_set passes (same ▸ passes p (mem_of_getElem? found))
  | lost => exact inv
  | review _ id decision reviewedBy now note won =>
    have d := decides_review won decision reviewedBy now note
    refine frame (by simp) passes (fun c mem _ => .inl mem) ?_
    intro x mem
    rcases held x mem with unreleased | ⟨released, closed⟩
    · exact .inl unreleased
    · refine .inr ⟨mem_append_left _ released, forall_mem_concat closed fun named => ?_⟩
      -- the record was decided before, so this review did not win
      have decided : id ∈ w.transitions.map Prod.fst :=
        mem_map.mpr ⟨_, released, named.symm⟩
      exact absurd decided (decided_fresh queue d (mem_singleton.mpr rfl))
  | reviewGet i call found won =>
    refine frame (by simp) passes (fun c mem _ => .inl mem) ?_
    refine call_held i call _ found (by simp [won]) ?_
    rw [ReviewCall.afterGet_recordID]
  | releaseRead i call _ _ _ found reading =>
    refine frame (by simp) passes (fun c mem _ => .inl mem) ?_
    exact call_held i call _ found (by simp [reading]) rfl
  | releaseWrite => exact payload_releaseWrite known queue inv h
  | sweepUpdate =>
    refine frame (by simp) passes (fun c mem _ => .inl mem) ?_
    intro x mem
    rcases held x mem with unreleased | ⟨released, closed⟩
    · exact .inl unreleased
    · exact .inr ⟨mem_append_left _ released, closed⟩
  | claimUpdate | discardWrite | pruneTerminal | pruneHeld =>
    exact frame (by simp) passes (fun c mem _ => .inl mem) held
  | _ => exact { inv with }

end

end Panmail.Outbox
