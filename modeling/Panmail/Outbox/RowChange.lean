import Panmail.Outbox.System

/-!
# What one step does to one row

Seven kinds of steps write the outbox. Every invariant about rows is proved from the
case analysis of this module rather than from the steps themselves.
-/

namespace Panmail.Outbox

open Tables

/-- What a settling statement leaves of the row it names. -/
def RowWrite.row (w : RowWrite) (r : OutboxRow) : Option OutboxRow :=
  match w with
  | .update u _ => some (u.apply r)
  | .delete => none

theorem lookup_run (write : RowWrite) (t : OutboxTable) (id k : String) :
    (write.run t id).lookup k = if k = id then (t.lookup k).bind write.row else t.lookup k := by
  cases write with
  | update =>
    simp only [RowWrite.run, lookup_updateOutbox, RowWrite.row]
    cases t.lookup k <;> rfl
  | delete =>
    simp only [RowWrite.run, lookup_deleteOutbox, RowWrite.row]
    cases t.lookup k <;> rfl

variable {lease : Time} {w t : World} {a : Action}

/-- What a step of a pass did. -/
inductive Pass.Stepped (lease clock : Time) (t : OutboxTable) (p : Pass) :
    PassAction → Pass → OutboxTable → Prop
  | confirmStart (waiting : p.phase = .waiting) :
      Stepped lease clock t p .confirmStart { p with phase := .confirming clock } t
  | confirmed (stamp : Time) (confirming : p.phase = .confirming stamp)
      (answer : renewed t p.email.id p.token = true) :
      Stepped lease clock t p (.confirm .ok)
        { p with phase := .sending, leaseEnd := some (stamp + lease) }
        (renewClaim t p.email.id p.token (stamp + lease))
  | confirmUnheard (stamp : Time) (confirming : p.phase = .confirming stamp) :
      Stepped lease clock t p (.confirm .unheard) { p with phase := .done }
        (renewClaim t p.email.id p.token (stamp + lease))
  | unconfirmed (stamp : Time) (reply : Reply) (confirming : p.phase = .confirming stamp) :
      Stepped lease clock t p (.confirm reply) { p with phase := .done } t
  | renewStart (busy : p.phase = .sending ∨ ∃ write n, p.phase = .settling write n) :
      Stepped lease clock t p .renewStart { p with renewer := .renewing clock } t
  | renewed (stamp : Time) (renewing : p.renewer = .renewing stamp)
      (answer : renewed t p.email.id p.token = true) :
      Stepped lease clock t p (.renew .ok)
        { p with renewer := .idle, leaseEnd := some (stamp + lease) }
        (renewClaim t p.email.id p.token (stamp + lease))
  | renewUnheard (stamp : Time) (renewing : p.renewer = .renewing stamp) :
      Stepped lease clock t p (.renew .unheard) { p with renewer := .idle }
        (renewClaim t p.email.id p.token (stamp + lease))
  | unrenewed (stamp : Time) (reply : Reply) (renewer : Renewer)
      (renewing : p.renewer = .renewing stamp) (quiet : ∀ s, renewer ≠ .renewing s) :
      Stepped lease clock t p (.renew reply) { p with renewer := renewer } t
  | storeLost (refused : p.renewer = .refused) :
      Stepped lease clock t p .storeLost { p with renewer := .stopped, lost := true } t
  | settling (pa : PassAction) (write : RowWrite) (sending : p.phase = .sending) :
      Stepped lease clock t p pa { p with phase := .settling write 0 } t
  | abandoned (write : RowWrite) (sending : p.phase = .sending) :
      Stepped lease clock t p (.sendDone write) { p with phase := .done } t
  | settle (reply : Reply) (write : RowWrite) (n : Nat) (settling : p.phase = .settling write n) :
      Stepped lease clock t p (.settle reply) (p.booked write n reply)
        (if reply = .failed then t else write.run t p.email.id)

section
variable {clock : Time} {t t' : OutboxTable} {p p' : Pass} {a : PassAction}
  (h : p.step lease clock t a = some (p', t'))
include h

theorem Pass.stepped : p.Stepped lease clock t a p' t' := by
  cases a <;> simp only [Pass.step] at h
  case confirm reply =>
    split at h
    next stamp confirming =>
      cases reply <;> simp only at h
      case ok =>
        split at h <;> cases h
        next answer => exact .confirmed stamp confirming answer
        · exact .unconfirmed stamp _ confirming
      all_goals cases h
      · exact .confirmUnheard stamp confirming
      · exact .unconfirmed stamp _ confirming
    · cases h
  case renew reply =>
    split at h
    next stamp renewing =>
      cases reply <;> simp only at h
      case ok =>
        split at h <;> cases h
        next answer => exact .renewed stamp renewing answer
        · exact .unrenewed stamp _ _ renewing nofun
      all_goals cases h
      · exact .renewUnheard stamp renewing
      · exact .unrenewed stamp _ _ renewing nofun
    · cases h
  case sendDone write =>
    split at h
    next sending =>
      split at h <;> cases h
      · exact .abandoned write sending
      · exact .settling _ write sending
    · cases h
  all_goals split at h <;> cases h
  next waiting => exact .confirmStart waiting
  next sending _ => exact .renewStart (.inl sending)
  next write n settling _ => exact .renewStart (.inr ⟨write, n, settling⟩)
  next refused => exact .storeLost refused
  next sending => exact .settling _ _ sending
  next write n settling => exact .settle _ write n settling

/-- A step of a pass kept the claim's identity, and it left the table alone, renewed the claim,
or ran its settling statement. -/
theorem Pass.step_cases : p'.token = p.token ∧ p'.email = p.email ∧
      (t' = t ∨ (∃ until_, t' = renewClaim t p.email.id p.token until_) ∨
        ∃ write n reply, a = .settle reply ∧ p.phase = .settling write n ∧
          t' = write.run t p.email.id) := by
  cases Pass.stepped h with
  | confirmed | confirmUnheard | renewed | renewUnheard => exact ⟨rfl, rfl, .inr (.inl ⟨_, rfl⟩)⟩
  | settle reply write n settling =>
    refine ⟨rfl, rfl, ?_⟩
    split
    · exact .inl rfl
    · exact .inr (.inr ⟨write, n, reply, rfl, settling, rfl⟩)
  | _ => exact ⟨rfl, rfl, .inl rfl⟩

end

/-- What one step does to the row `id` names: the row before and the row after. -/
inductive RowChange (lease : Time) (w : World) (a : Action) (id : String) :
    Option OutboxRow → Option OutboxRow → Prop
  | same (row : Option OutboxRow) : RowChange lease w a id row row
  | created (email : OutboxEmail) (taken : a = .create email) (named : email.id = id) :
      RowChange lease w a id none (some (OutboxRow.new email))
  | claimed (r : OutboxRow) (i limit : Nat) (locked : List String) (call : ClaimCall)
      (taken : a = .claimUpdate i limit locked) (found : w.claims[i]? = some call)
      (stamped : call.phase = .stamped) (ok : r.claimable call.now = true) :
      RowChange lease w a id (some r)
        (some (r.claim call.token (call.now + lease) call.now))
  | renewed (r : OutboxRow) (i : Nat) (pa : PassAction) (p : Pass) (until_ : Time)
      (taken : a = .pass i pa) (found : w.passes[i]? = some p) (named : p.email.id = id)
      (owned : r.claimToken = some p.token) (sending : r.status = .sending) :
      RowChange lease w a id (some r) (some { r with claimedUntil := some until_ })
  | settled (r : OutboxRow) (i : Nat) (reply : Reply) (p : Pass) (write : RowWrite) (n : Nat)
      (after : Option OutboxRow) (taken : a = .pass i (.settle reply))
      (found : w.passes[i]? = some p) (named : p.email.id = id)
      (settling : p.phase = .settling write n) (result : write.row r = after) :
      RowChange lease w a id (some r) after
  | released (r : OutboxRow) (i : Nat) (nextRetryAt updatedAt : Time) (call : ReviewCall)
      (email : OutboxEmail) (readAt : Time) (taken : a = .releaseWrite i nextRetryAt updatedAt)
      (found : w.reviewCalls[i]? = some call) (writing : call.phase = .writing email readAt)
      (named : email.id = id) :
      RowChange lease w a id (some r)
        (some ((releaseUpdate email nextRetryAt updatedAt).apply r))
  | discarded (r : OutboxRow) (i : Nat) (call : DiscardCall) (taken : a = .discardWrite i)
      (found : w.discards[i]? = some call) (named : call.messageID = id) :
      RowChange lease w a id (some r) none
  | pruned (r : OutboxRow) (cutoff : Time) (taken : a = .pruneTerminal cutoff)
      (failed : r.status = .failed) : RowChange lease w a id (some r) none
  | prunedHeld (r : OutboxRow) (cutoff : Time) (taken : a = .pruneHeld cutoff)
      (held : r.status = .held)
      (closed : ∀ m ∈ w.reviews.rows, m.messageID = id → m.status ≠ .pending) :
      RowChange lease w a id (some r) none

theorem row_change_pass {i : Nat} {pa : PassAction}
    (h : w.step lease (.pass i pa) = some t) (id : String) :
    RowChange lease w (.pass i pa) id (w.outbox.lookup id) (t.outbox.lookup id) := by
  obtain ⟨p, p', outbox, found, moved, rfl⟩ := step_pass h
  obtain ⟨_, _, rfl | ⟨until_, rfl⟩ | ⟨write, n, reply, rfl, settling, rfl⟩⟩ :=
    Pass.step_cases moved
  · exact .same _
  · cases row : w.outbox.lookup id with
    | none =>
      simp only [lookup_renewClaim, row, Option.map_none]
      exact .same _
    | some r =>
      simp only [lookup_renewClaim, row, Option.map_some]
      split
      next owned =>
        obtain ⟨named, token, sending⟩ := ownedBy_iff.mp owned
        have same : p.email.id = id := named.symm.trans (id_of_lookup row)
        exact .renewed r i pa p until_ rfl found same token sending
      · exact .same _
  · simp only [lookup_run]
    split
    next same =>
      cases row : w.outbox.lookup id with
      | none => exact .same _
      | some r => exact .settled r i reply p write n _ rfl found same.symm settling rfl
    · exact .same _

theorem row_change (h : w.step lease a = some t) (id : String) :
    RowChange lease w a id (w.outbox.lookup id) (t.outbox.lookup id) := by
  cases step_cases h with
  | create email _ _ _ inserted =>
    simp only [Table.lookup_insert? inserted]
    split
    next same =>
      have absent : w.outbox.lookup id = none := same ▸ (Table.insert?_rows inserted).2
      exact absent ▸ .created email rfl same
    · exact .same _
  | claimUpdate i limit locked call found stamped =>
    rcases lookup_claimPending w.outbox call.token (call.now + lease) call.now limit locked id
      with same | ⟨r, row, ok, new⟩
    · simp only [same]
      exact .same _
    · simp only [new, row]
      exact .claimed r i limit locked call rfl found stamped ok
  | pass => exact row_change_pass h id
  | releaseWrite i nextRetryAt updatedAt call email readAt found writing =>
    simp only [lookup_updateOutbox]
    split
    next same =>
      cases row : w.outbox.lookup id with
      | none => exact .same _
      | some r =>
        exact .released r i nextRetryAt updatedAt call email readAt rfl found writing same.symm
    · exact .same _
  | discardWrite i call found =>
    simp only [lookup_deleteOutbox]
    split
    next same =>
      cases row : w.outbox.lookup id with
      | none => exact .same _
      | some r => exact .discarded r i call rfl found same.symm
    · exact .same _
  | pruneTerminal cutoff =>
    rcases lookup_pruneTerminal w.outbox cutoff id with same | ⟨r, row, failed, gone⟩
    · simp only [same]
      exact .same _
    · simp only [gone, row]
      exact .pruned r cutoff rfl failed
  | pruneHeld cutoff =>
    rcases lookup_pruneHeld w.outbox w.reviews cutoff id with same | ⟨⟨r, row, held⟩, closed, gone⟩
    · simp only [same]
      exact .same _
    · simp only [gone, row]
      exact .prunedHeld r cutoff rfl held closed
  -- the other steps leave the outbox as it is
  | _ => exact .same _

theorem row_same (h : w.step lease a = some t) (other : ∀ email, a ≠ .create email) {id : String}
    {r : OutboxRow} (row : t.outbox.lookup id = some r) :
    ∃ old, w.outbox.lookup id = some old ∧ r.id = old.id ∧ r.tenantID = old.tenantID ∧
      r.request = old.request := by
  have change := row_change h id
  rw [row] at change
  generalize before : w.outbox.lookup id = found at change
  cases change with
  | same => exact ⟨r, rfl, rfl, rfl, rfl⟩
  | created email taken => exact absurd taken (other email)
  | claimed old | renewed old => exact ⟨old, rfl, rfl, rfl, rfl⟩
  | settled old _ _ _ write _ _ _ _ _ _ result =>
    cases write with
    | update =>
      cases result
      exact ⟨old, rfl, rfl, rfl, rfl⟩
    | delete => cases result
  | released old => exact ⟨old, rfl, rfl, rfl, rfl⟩

/-! ### The clock and the passes -/

inductive PassesChange (lease : Time) (w : World) (a : Action) (t : World) : Prop
  | same (clock : t.clock = w.clock) (passes : t.passes = w.passes)
      (quiet : ∀ i pa, a ≠ .pass i pa)
  | ticked (elapsed : Time) (taken : a = .tick elapsed) (clock : t.clock = w.clock + elapsed)
      (passes : t.passes = w.passes)
  | listed (i : Nat) (call : ClaimCall) (taken : a = .claimList i) (clock : t.clock = w.clock)
      (passes : t.passes =
        w.passes ++ (listClaimed w.outbox call.token).map (Pass.start call.token))
  | moved (i : Nat) (pa : PassAction) (p p' : Pass) (taken : a = .pass i pa)
      (clock : t.clock = w.clock) (found : w.passes[i]? = some p)
      (step : p.step lease w.clock w.outbox pa = some (p', t.outbox))
      (passes : t.passes = w.passes.set i p')

theorem passes_change (h : w.step lease a = some t) : PassesChange lease w a t := by
  cases step_cases h with
  | tick elapsed => exact .ticked elapsed rfl rfl rfl
  | claimList i call => exact .listed i call rfl rfl rfl
  | pass i pa p p' _ found step => exact .moved i pa p p' rfl rfl found step rfl
  | _ => exact .same rfl rfl nofun

theorem clock_le (h : w.step lease a = some t) : w.clock ≤ t.clock := by
  cases passes_change h with
  | same clock => exact Nat.le_of_eq clock.symm
  | ticked _ _ clock => exact clock ▸ Nat.le_add_right _ _
  | listed _ _ _ clock | moved _ _ _ _ _ clock => exact Nat.le_of_eq clock.symm

/-- The pass has not come to settle its row: it is sending, or may come to. -/
def Pass.maySend (p : Pass) : Bool :=
  match p.phase with
  | .settling _ _ | .done => false
  | _ => true

theorem Pass.maySend_of_step {clock : Time} {t t' : OutboxTable} {p p' : Pass} {a : PassAction}
    (h : p.step lease clock t a = some (p', t')) (sends : p'.maySend = true) :
    p.maySend = true := by
  cases Pass.stepped h with
  | confirmStart phase => simp only [Pass.maySend, phase]
  | confirmed _ phase | confirmUnheard _ phase | unconfirmed _ _ phase =>
    simp only [Pass.maySend, phase]
  | settling _ _ phase | abandoned _ phase => simp only [Pass.maySend, phase]
  | settle reply _ n =>
    by_cases closed : reply = .ok ∨ bookkeepingAttempts ≤ n + 1
    · simp [Pass.maySend, Pass.booked, closed] at sends
    · simp [Pass.maySend, Pass.booked, closed] at sends
  -- the lease goroutine does not touch the phase
  | _ => exact sends

end Panmail.Outbox
