import Panmail.Outbox.RowChange

/-!
# The review queue

The record a reviewer decides on is written by statements of its own. What holds of the
records alone, in every interleaving: ids are drawn once, a record is decided at most
once, and it tells the truth about the decision that was taken.
-/

namespace Panmail.Outbox

open Tables Runs List Table

/-! ### Decisions -/

variable {id tenantID : String} {after : ReviewTable} {decided : List (String × ReviewStatus)}
  {i : Nat} {m : FilteredMessage} {w : World}

theorem recordID_of_lookup {t : ReviewTable} (found : t.lookup id = some m) : m.id = id := by
  have named := key_of_lookup found
  exact named

/-- The same record but for what a decision writes. -/
def FilteredMessage.Keeps (old new : FilteredMessage) : Prop :=
  new.action = old.action ∧ new.direction = old.direction ∧ new.messageID = old.messageID ∧
    new.payloadRef = old.payloadRef

/-- One statement of `Review` or `Expire`: the records in `decided` were pending and now read as it
says, every other is as before. -/
structure Decides (before after : ReviewTable) (decided : List (String × ReviewStatus)) :
    Prop where
  once : (decided.map Prod.fst).Nodup
  pending : ∀ x ∈ decided, x.2 ≠ .pending ∧
    ∃ m, before.lookup x.1 = some m ∧ m.status = .pending
  absent : ∀ {id}, before.lookup id = none → after.lookup id = none
  present : ∀ {id m}, before.lookup id = some m → ∃ m', after.lookup id = some m' ∧
    m.Keeps m' ∧ (m' = m ∧ id ∉ decided.map Prod.fst ∨ (id, m'.status) ∈ decided)

open FilteredMessage

theorem reviewable_iff :
    m.reviewable tenantID id = true ↔ m.tenantID = tenantID ∧ m.id = id ∧ m.status = .pending := by
  simp [reviewable, and_assoc]

theorem expirable_iff {ids : List String} :
    m.expirable ids = true ↔ m.status = .pending ∧ m.id ∈ ids := by simp [expirable]

theorem decides_updateWhere {reviews : ReviewTable} {p : FilteredMessage → Bool}
    {f : FilteredMessage → FilteredMessage} {same : ∀ m, (f m).id = m.id} {status : ReviewStatus}
    (open_ : ∀ m, p m = true → m.status = .pending) (closes : status ≠ .pending)
    (writes : ∀ m, m.Keeps (f m) ∧ (f m).status = status) :
    Decides reviews (reviews.updateWhere p f same)
      ((reviews.selectWhere p).map fun m => (m.id, status)) := by
  have keys : ((reviews.selectWhere p).map fun m => (m.id, status)).map Prod.fst =
      (reviews.selectWhere p).map FilteredMessage.id := by
    rw [map_map]
    rfl
  refine ⟨?_, ?_, ?_, ?_⟩
  · rw [keys]
    exact reviews.unique.sublist (filter_sublist.map _)
  · intro x mem
    obtain ⟨m, selected, rfl⟩ := mem_map.mp mem
    obtain ⟨stored, ok⟩ := mem_selectWhere.mp selected
    exact ⟨closes, m, lookup_iff.mpr ⟨stored, rfl⟩, open_ m ok⟩
  · intro k absent
    rw [lookup_updateWhere, absent, Option.map_none]
  · intro k m present
    have named := recordID_of_lookup present
    refine ⟨_, by rw [lookup_updateWhere, present, Option.map_some], ?_⟩
    split
    next ok =>
      refine ⟨(writes m).1, .inr (mem_map.mpr ⟨m, ?_, by rw [named, (writes m).2]⟩)⟩
      exact mem_selectWhere.mpr ⟨mem_of_lookup present, ok⟩
    next other =>
      -- a record listed as decided is the one stored under its id, so it met the condition
      refine ⟨⟨rfl, rfl, rfl, rfl⟩, .inl ⟨rfl, fun listed => ?_⟩⟩
      rw [keys] at listed
      obtain ⟨twin, selected, same⟩ := mem_map.mp listed
      obtain ⟨stored, ok⟩ := mem_selectWhere.mp selected
      have found : reviews.lookup k = some twin := lookup_iff.mpr ⟨stored, same⟩
      rw [present, Option.some.injEq] at found
      exact other (found ▸ ok)

theorem decides_review {reviews : ReviewTable} (won : reviewAffected reviews tenantID id = true)
    (decision : Decision) (reviewedBy : String) (now : Time) (note : String) :
    Decides reviews (reviewFiltered reviews tenantID id decision.status reviewedBy now note)
      [(id, decision.status)] := by
  have only : ∃ m, reviews.selectWhere (reviewable tenantID id) = [m] ∧ m.id = id := by
    have selected := selectWhere_named reviews (reviewable tenantID id) id
      fun _ ok => (reviewable_iff.mp ok).2.1
    rw [reviewAffected, selected] at won
    rw [selected]
    cases found : reviews.lookup id with
    | none => simp [found] at won
    | some m =>
      by_cases ok : m.reviewable tenantID id = true
      · exact ⟨m, by simp [Option.filter, ok], recordID_of_lookup found⟩
      · simp [found, Option.filter, ok] at won
  obtain ⟨m, only, named⟩ := only
  -- no decision is to leave a record pending
  have closes : decision.status ≠ .pending := by cases decision <;> exact ReviewStatus.noConfusion
  have decides : Decides reviews
      (reviewFiltered reviews tenantID id decision.status reviewedBy now note) _ :=
    decides_updateWhere (fun _ ok => (reviewable_iff.mp ok).2.2) closes
      fun _ => ⟨⟨rfl, rfl, rfl, rfl⟩, rfl⟩
  rwa [only, map_singleton, named] at decides

theorem decides_expire (reviews : ReviewTable) (ids : List String) :
    Decides reviews (expireFiltered reviews ids)
      ((reviews.selectWhere (expirable ids)).map fun m => (m.id, .expired)) :=
  decides_updateWhere (fun _ ok => (expirable_iff.mp ok).1) (by simp)
    fun _ => ⟨⟨rfl, rfl, rfl, rfl⟩, rfl⟩

theorem Decides.before {before : ReviewTable} (d : Decides before after decided)
    {m' : FilteredMessage} (row : after.lookup id = some m') :
    ∃ m, before.lookup id = some m ∧ m.Keeps m' ∧
      (m' = m ∧ id ∉ decided.map Prod.fst ∨ (id, m'.status) ∈ decided) := by
  cases found : before.lookup id with
  | none => cases (d.absent found).symm.trans row
  | some m =>
    obtain ⟨new, stored, facts⟩ := d.present found
    rw [row, Option.some.injEq] at stored
    exact ⟨m, rfl, stored ▸ facts⟩

/-! ### Ids are drawn once -/

/-- Whatever names a message or a record names one that was drawn. -/
structure Known (w : World) : Prop where
  row : ∀ {id r}, w.outbox.lookup id = some r → id ∈ w.messageIDs
  record : ∀ {id m}, w.reviews.lookup id = some m → id ∈ w.recordIDs
  pass : ∀ p ∈ w.passes, p.email.id ∈ w.messageIDs
  holdCall : ∀ c ∈ w.holdCalls, c.messageID ∈ w.messageIDs
  hold : ∀ h ∈ w.holds, h.1 ∈ w.recordIDs ∧ h.2 ∈ w.messageIDs
  transition : ∀ x ∈ w.transitions, x.1 ∈ w.recordIDs

theorem known_init : Known World.init where
  row := nofun
  record := nofun
  pass := fun _ mem => nomatch mem
  holdCall := fun _ mem => nomatch mem
  hold := nofun
  transition := nofun

section
variable {lease : Time} {t : World} {a : Action}

theorem known_rows (inv : Known w) (h : w.step lease a = some t)
    (other : ∀ email, a ≠ .create email) (id : String) (r : OutboxRow)
    (row : t.outbox.lookup id = some r) : id ∈ w.messageIDs := by
  obtain ⟨old, before, _⟩ := row_same h other row
  exact inv.row before

theorem known_decides (inv : Known w) (d : Decides w.reviews after decided) :
    Known { w with reviews := after, transitions := w.transitions ++ decided } := by
  refine { inv with
    record := fun row => ?_, transition := forall_mem_append.mpr ⟨inv.transition, ?_⟩ }
  · obtain ⟨_, before, _⟩ := d.before row
    exact inv.record before
  · intro x new
    obtain ⟨_, m, stored, _⟩ := d.pending x new
    exact inv.record stored

theorem known_record (inv : Known w) (inserted : w.reviews.insert? m = some after) :
    Known { w with reviews := after, recordIDs := w.recordIDs ++ [m.id] } := by
  have grown {id : String} (old : id ∈ w.recordIDs) := mem_append_left [m.id] old
  refine { inv with record := ?_, hold := ?_, transition := ?_ }
  · exact forall_insert? inserted (fun _ _ row => grown (inv.record row)) mem_concat_self
  · exact fun x mem => ⟨grown (inv.hold x mem).1, (inv.hold x mem).2⟩
  · exact fun x mem => grown (inv.transition x mem)

theorem Known.step (inv : Known w) (h : w.step lease a = some t) : Known t := by
  cases step_cases h with
  | create email _ _ _ inserted =>
    have grown {id : String} (old : id ∈ w.messageIDs) := mem_append_left [email.id] old
    have calls : ∀ c ∈ w.holdCalls, c.messageID ∈ w.messageIDs ++ [email.id] :=
      fun c mem => grown (inv.holdCall c mem)
    refine { inv with row := ?_, pass := ?_, holdCall := ?_, hold := ?_ }
    · exact forall_insert? inserted (fun _ _ row => grown (inv.row row)) mem_concat_self
    · exact fun p mem => grown (inv.pass p mem)
    · simp only
      split
      · exact forall_mem_concat calls mem_concat_self
      · exact calls
    · exact fun x mem => ⟨(inv.hold x mem).1, grown (inv.hold x mem).2⟩
  | recordHold _ _ _ _ call _ found _ _ inserted =>
    have pending := inv.holdCall call (mem_of_getElem? found)
    have next := known_record inv inserted
    exact { next with
      holdCall := forall_mem_set inv.holdCall pending
      hold := forall_mem_concat next.hold ⟨mem_concat_self, pending⟩ }
  | recordOther _ _ _ _ _ inserted => exact { known_record inv inserted with }
  | claimUpdate | releaseWrite | discardWrite | pruneTerminal | pruneHeld =>
    exact { inv with row := known_rows inv h nofun _ _ }
  | claimList =>
    -- the new passes are over rows the list query returned
    refine { inv with pass := forall_mem_append.mpr ⟨inv.pass, ?_⟩ }
    intro p new
    obtain ⟨email, listed, rfl⟩ := mem_map.mp new
    obtain ⟨r, row, _, _⟩ := mem_listClaimed.mp listed
    exact inv.row row
  | pass _ _ p _ _ found moved =>
    have rows := known_rows inv h nofun
    obtain ⟨_, same, _⟩ := Pass.step_cases moved
    refine { inv with row := rows _ _, pass := ?_ }
    exact forall_mem_set inv.pass (same ▸ inv.pass p (mem_of_getElem? found))
  | lost => exact inv
  | review _ _ decision reviewedBy now note won =>
    exact { known_decides inv (decides_review won decision reviewedBy now note) with }
  | sweepUpdate _ sweep => exact { known_decides inv (decides_expire w.reviews sweep.ids) with }
  | pruneFiltered =>
    exact { inv with record := fun row => inv.record (lookup_of_deleteWhere row) }
  | _ => exact { inv with }

end

/-! ### The records tell the truth -/

theorem Known.undecided (known : Known w) (fresh : id ∉ w.recordIDs) :
    id ∉ w.transitions.map Prod.fst := by
  intro mem
  obtain ⟨x, logged, rfl⟩ := mem_map.mp mem
  exact fresh (known.transition x logged)

/-- The message whose row a release is about to read or write. -/
def ReviewPhase.target : ReviewPhase → Option String
  | .reading _ payloadRef => some payloadRef
  | .writing email _ => some email.id
  | .won => none
  | .done => none

/-- Records, decisions and the calls that act on them. -/
structure Queue (w : World) : Prop where
  decidedOnce : (w.transitions.map Prod.fst).Nodup
  status : ∀ {id m}, w.reviews.lookup id = some m →
    m.status = .pending ∧ id ∉ w.transitions.map Prod.fst ∨
      m.status ≠ .pending ∧ (id, m.status) ∈ w.transitions
  outbound : ∀ {id m}, w.reviews.lookup id = some m → m.action = .hold →
    m.direction = .outbound → (id, m.payloadRef) ∈ w.holds
  kept : ∀ x ∈ w.holds, x.1 ∉ w.transitions.map Prod.fst →
    ∃ m, w.reviews.lookup x.1 = some m ∧ m.status = .pending ∧ m.action = .hold ∧
      m.messageID = x.2
  recordOnce : (w.holds.map Prod.fst).Nodup
  messageOnce : (w.holds.map Prod.snd).Nodup
  callOnce : (w.holdCalls.map HoldCall.messageID).Nodup
  unrecorded : ∀ c ∈ w.holdCalls, c.recorded = false → c.messageID ∉ w.holds.map Prod.snd
  reviewOnce : (w.reviewCalls.map ReviewCall.recordID).Nodup
  reviewed : ∀ c ∈ w.reviewCalls, (c.recordID, c.decision.status) ∈ w.transitions
  releasing : ∀ c ∈ w.reviewCalls, ∀ id, c.phase.target = some id →
    c.decision = .release ∧ (c.recordID, id) ∈ w.holds
  discarding : ∀ d ∈ w.discards, ∃ record status, (record, d.messageID) ∈ w.holds ∧
    (record, status) ∈ w.transitions ∧ status ≠ .released

/-- A release about to write back a row works for the record that holds that message. -/
theorem Queue.writes (inv : Queue w) {call : ReviewCall} {email : OutboxEmail} {readAt : Time}
    (found : w.reviewCalls[i]? = some call) (writing : call.phase = .writing email readAt) :
    call.decision = .release ∧ (call.recordID, email.id) ∈ w.holds := by
  apply inv.releasing call (mem_of_getElem? found)
  rw [writing]
  rfl

theorem Queue.sameRecord (inv : Queue w) {x y : String × String} (one : x ∈ w.holds)
    (two : y ∈ w.holds) (message : x.2 = y.2) : x = y :=
  inj_on_of_nodup_map inv.messageOnce one two message

theorem queue_init : Queue World.init where
  decidedOnce := nodup_nil
  status := nofun
  outbound := nofun
  kept := nofun
  recordOnce := nodup_nil
  messageOnce := nodup_nil
  callOnce := nodup_nil
  unrecorded := nofun
  reviewOnce := nodup_nil
  reviewed := nofun
  releasing := nofun
  discarding := nofun

section
variable {lease : Time} {t : World} {a : Action}

theorem decided_fresh (inv : Queue w) (d : Decides w.reviews after decided)
    {x : String × ReviewStatus} (mem : x ∈ decided) : x.1 ∉ w.transitions.map Prod.fst := by
  obtain ⟨_, m, stored, pending⟩ := d.pending x mem
  rcases inv.status stored with ⟨_, fresh⟩ | ⟨closed, _⟩
  · exact fresh
  · exact absurd pending closed

theorem queue_decides (inv : Queue w) (d : Decides w.reviews after decided) :
    Queue { w with reviews := after, transitions := w.transitions ++ decided } := by
  have grown : ∀ x ∈ w.transitions, x ∈ w.transitions ++ decided :=
    fun x old => mem_append_left _ old
  refine { inv with decidedOnce := ?_, status := ?_, outbound := ?_, kept := ?_, reviewed := ?_,
                    discarding := ?_ }
  · -- `WHERE status = PENDING` is what keeps a second decision out
    rw [map_append]
    refine nodup_append.mpr ⟨inv.decidedOnce, d.once, ?_⟩
    rintro id old _ new rfl
    obtain ⟨x, mem, same⟩ := mem_map.mp new
    exact decided_fresh inv d mem (same ▸ old)
  · intro id m' row
    obtain ⟨m, stored, _, ⟨rfl, away⟩ | here⟩ := d.before row
    · rcases inv.status stored with ⟨pending, fresh⟩ | ⟨closed, logged⟩
      · refine .inl ⟨pending, fun mem => ?_⟩
        rw [map_append] at mem
        exact (mem_append.mp mem).elim fresh away
      · exact .inr ⟨closed, grown _ logged⟩
    · exact .inr ⟨(d.pending _ here).1, mem_append_right _ here⟩
  · intro id m' row hold outbound
    obtain ⟨m, stored, ⟨action, direction, _, payload⟩, _⟩ := d.before row
    rw [payload]
    exact inv.outbound stored (action ▸ hold) (direction ▸ outbound)
  · -- a hold still undecided after the statement is one it left alone
    intro x mem fresh
    rw [map_append, mem_append, not_or] at fresh
    obtain ⟨m, stored, facts⟩ := inv.kept x mem fresh.1
    obtain ⟨m', row, _, ⟨rfl, _⟩ | here⟩ := d.present stored
    · exact ⟨m', row, facts⟩
    · exact absurd (mem_map_of_mem here) fresh.2
  · exact fun c mem => grown _ (inv.reviewed c mem)
  · intro call mem
    obtain ⟨record, status, hold, logged, other⟩ := inv.discarding call mem
    exact ⟨record, status, hold, grown _ logged, other⟩

theorem queue_recordHold (known : Known w) (inv : Queue w) {recordID : String}
    {createdAt : Time} {expiresAt : Option Time}
    (h : w.step lease (.recordHold i recordID createdAt expiresAt) = some t) : Queue t := by
  cases step_cases h with
  | recordHold _ _ _ _ call _ found open_ fresh inserted =>
    have undecided := known.undecided fresh
    have new : call.messageID ∉ w.holds.map Prod.snd :=
      inv.unrecorded call (mem_of_getElem? found) open_
    refine { inv with status := ?_, outbound := ?_, kept := ?_, recordOnce := ?_,
                      messageOnce := ?_, callOnce := ?_, unrecorded := ?_, releasing := ?_,
                      discarding := ?_ }
    · exact forall_insert? inserted (fun _ _ => inv.status) (.inl ⟨rfl, undecided⟩)
    · intro id m row hold outbound
      rcases lookup_insert?_cases inserted row with ⟨rfl, rfl⟩ | before
      · exact mem_concat_self
      · exact mem_append_left _ (inv.outbound before hold outbound)
    · intro x mem undecided
      simp only [lookup_insert? inserted]
      rcases mem_append.mp mem with old | last
      · have other : recordID ≠ x.1 := fun same => fresh (same ▸ (known.hold x old).1)
        simp only [holdRecord, other, if_false]
        exact inv.kept x old undecided
      · rw [mem_singleton.mp last]
        simp only [holdRecord, if_true]
        exact ⟨_, rfl, rfl, rfl, rfl⟩
    · refine nodup_push inv.recordOnce fun x old same => ?_
      have named : x.1 = recordID := same
      exact fresh (named ▸ (known.hold x old).1)
    · exact nodup_push inv.messageOnce fun x old same => new (mem_map.mpr ⟨x, old, same⟩)
    · exact nodup_set inv.callOnce found rfl
    · intro c mem unrecorded
      rcases mem_set_other mem with rfl | ⟨j, away, entry⟩
      · cases unrecorded
      -- another call is for another message: `callOnce`
      simp only [map_append, map_singleton, mem_append, mem_singleton, not_or]
      refine ⟨inv.unrecorded c (mem_of_getElem? entry) unrecorded, fun same => away ?_⟩
      exact position_unique inv.callOnce entry found same
    · intro c mem id target
      have old := inv.releasing c mem id target
      exact ⟨old.1, mem_append_left _ old.2⟩
    · intro d mem
      obtain ⟨record, status, hold, logged⟩ := inv.discarding d mem
      exact ⟨record, status, mem_append_left _ hold, logged⟩

theorem ReviewCall.afterGet_recordID (call : ReviewCall) (record : Option FilteredMessage) :
    (call.afterGet record).1.recordID = call.recordID := by
  unfold ReviewCall.afterGet
  split
  · rfl
  · split
    · split <;> rfl
    · rfl

theorem queue_reviewGet (inv : Queue w) (h : w.step lease (.reviewGet i) = some t) : Queue t := by
  cases step_cases h with
  | reviewGet _ call found =>
    have mem := mem_of_getElem? found
    generalize read : getFiltered w.reviews call.tenantID call.recordID = record
    -- where the call goes: it ends, it starts to release, or it hands over to a discard
    have after : (call.afterGet record).1.decision = call.decision ∧
        (∀ id, (call.afterGet record).1.phase.target = some id →
          call.decision = .release ∧ (call.recordID, id) ∈ w.holds) ∧
        ∀ d ∈ (call.afterGet record).2,
          call.decision = .reject ∧ (call.recordID, d.messageID) ∈ w.holds := by
      cases record with
      | none => exact ⟨rfl, nofun, nofun⟩
      | some =>
        have stored := (Option.filter_eq_some_iff.mp read).1
        simp only [ReviewCall.afterGet]
        split
        next outbound =>
          simp only [holdsOutbound, Bool.and_eq_true, decide_eq_true_eq] at outbound
          have hold := inv.outbound stored outbound.1.1 outbound.1.2
          cases decided : call.decision with
          | release =>
            refine ⟨rfl, ?_, nofun⟩
            intro id target
            cases target
            exact ⟨rfl, hold⟩
          | reject =>
            refine ⟨rfl, nofun, ?_⟩
            intro d listed
            rw [mem_singleton.mp listed]
            exact ⟨rfl, hold⟩
        · exact ⟨rfl, nofun, nofun⟩
    obtain ⟨sameDecision, releases, discards⟩ := after
    have sameRecord := call.afterGet_recordID record
    refine { inv with reviewOnce := ?_, reviewed := ?_, releasing := ?_, discarding := ?_ }
    · exact nodup_set inv.reviewOnce found sameRecord
    · refine forall_mem_set inv.reviewed ?_
      rw [sameRecord, sameDecision]
      exact inv.reviewed call mem
    · refine forall_mem_set inv.releasing ?_
      intro id target
      rw [sameRecord, sameDecision]
      exact releases id target
    · refine forall_mem_append.mpr ⟨inv.discarding, fun d new => ?_⟩
      obtain ⟨rejects, hold⟩ := discards d new
      have logged := inv.reviewed call mem
      rw [rejects] at logged
      exact ⟨call.recordID, .rejected, hold, logged, by decide⟩

theorem queue_call (inv : Queue w) {call : ReviewCall}
    (found : w.reviewCalls[i]? = some call) (phase : ReviewPhase)
    (target : ∀ id, phase.target = some id → call.phase.target = some id) :
    Queue { w with reviewCalls := w.reviewCalls.set i { call with phase := phase } } := by
  have mem := mem_of_getElem? found
  refine { inv with reviewOnce := ?_, reviewed := ?_, releasing := ?_ }
  · exact nodup_set inv.reviewOnce found rfl
  · exact forall_mem_set inv.reviewed (inv.reviewed call mem)
  · refine forall_mem_set inv.releasing ?_
    intro id aimed
    exact inv.releasing call mem id (target id aimed)

theorem queue_discard (inv : Queue w) {call : DiscardCall}
    (found : w.discards[i]? = some call) (phase : DiscardPhase) :
    Queue { w with discards := w.discards.set i { call with phase := phase } } := by
  refine { inv with discarding := ?_ }
  exact forall_mem_set inv.discarding (inv.discarding call (mem_of_getElem? found))

theorem Queue.step (known : Known w) (inv : Queue w) (h : w.step lease a = some t) : Queue t := by
  cases step_cases h with
  | create email _ fresh =>
    refine { inv with callOnce := ?_, unrecorded := ?_ }
    · simp only
      split
      · refine nodup_push inv.callOnce fun c old same => fresh ?_
        have named : c.messageID = email.id := same
        exact named ▸ known.holdCall c old
      · exact inv.callOnce
    · simp only
      split
      · refine forall_mem_concat inv.unrecorded fun _ held => ?_
        -- the message is new, so no record can be of it yet
        obtain ⟨x, old, same⟩ := mem_map.mp held
        have named : x.2 = email.id := same
        exact fresh (named ▸ (known.hold x old).2)
      · exact inv.unrecorded
  | recordHold => exact queue_recordHold known inv h
  | recordOther record _ fresh pending other inserted =>
    refine { inv with status := ?_, outbound := ?_, kept := ?_ }
    · exact forall_insert? inserted (fun _ _ => inv.status)
        (.inl ⟨pending, known.undecided fresh⟩)
    · -- a record of another kind is no outbound hold
      intro id m row
      refine forall_insert? inserted (fun _ _ => inv.outbound) (fun hold outbound => ?_) row
      rcases other with action | direction
      · exact absurd hold action
      · cases direction.symm.trans outbound
    · intro x mem undecided
      have away : record.id ≠ x.1 := fun same => fresh (same ▸ (known.hold x mem).1)
      simp only [lookup_insert? inserted, away, if_false]
      exact inv.kept x mem undecided
  | lost => exact inv
  | review _ id decision reviewedBy now note won =>
    have d := decides_review won decision reviewedBy now note
    have next := queue_decides inv d
    refine { next with reviewOnce := ?_, reviewed := ?_, releasing := ?_ }
    · -- an earlier call for this record would have decided it
      refine nodup_push inv.reviewOnce fun c old same => ?_
      have named : c.recordID = id := same
      refine decided_fresh inv d (mem_singleton.mpr rfl) ?_
      exact mem_map.mpr ⟨_, inv.reviewed c old, named⟩
    · exact forall_mem_concat next.reviewed mem_concat_self
    · exact forall_mem_concat inv.releasing (by simp [ReviewPhase.target])
  | reviewGet => exact queue_reviewGet inv h
  | releaseRead _ _ _ _ phase found reading next =>
    refine queue_call inv found phase fun id target => ?_
    rcases next with rfl | ⟨r, row, rfl⟩
    · cases target
    simp only [ReviewPhase.target, Option.some.injEq] at target
    rw [reading, ← target, id_of_lookup row]
    rfl
  | releaseWrite _ _ _ _ _ _ found =>
    exact { queue_call inv found .done (by simp [ReviewPhase.target]) with }
  | discardRead _ _ phase found => exact queue_discard inv found phase
  | discardWrite _ _ found => exact { queue_discard inv found .done with }
  | sweepUpdate _ sweep => exact { queue_decides inv (decides_expire w.reviews sweep.ids) with }
  | sweepRead _ sweep =>
    refine { inv with discarding := forall_mem_append.mpr ⟨inv.discarding, ?_⟩ }
    intro d new
    obtain ⟨m, kept, rfl⟩ := mem_map.mp new
    obtain ⟨listed, outbound⟩ := mem_filter.mp kept
    obtain ⟨stored, expired⟩ := mem_selectWhere.mp listed
    simp only [holdsOutbound, Bool.and_eq_true, decide_eq_true_eq]
      at outbound expired
    have row : w.reviews.lookup m.id = some m := lookup_iff.mpr ⟨stored, rfl⟩
    -- the sweep reads back what expired, by whichever sweep that was
    rcases inv.status row with ⟨pending, _⟩ | ⟨_, logged⟩
    · cases expired.1.symm.trans pending
    rw [expired.1] at logged
    exact ⟨m.id, .expired, inv.outbound row outbound.1.1 outbound.1.2, logged, by decide⟩
  | pruneFiltered cutoff =>
    refine { inv with
      status := fun row => inv.status (lookup_of_deleteWhere row)
      outbound := fun row => inv.outbound (lookup_of_deleteWhere row)
      kept := fun x mem undecided => ?_ }
    obtain ⟨m, stored, pending, hold, message⟩ := inv.kept x mem undecided
    -- retention deletes no pending hold
    refine ⟨m, ?_, pending, hold, message⟩
    simp [pruneTerminalFiltered, lookup_deleteWhere, stored, pending, hold]
  | _ => exact { inv with }

end

end Panmail.Outbox
