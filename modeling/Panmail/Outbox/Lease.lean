import Panmail.Outbox.Review

/-!
# Who owns a claimed row

A worker owns the rows it claimed for as long as its lease lasts. The renewal statement checks the
claim token, the settling statements name the row by its id. What keeps a settling worker off
another's row is that it settles before its lease is over, and only once.
-/

namespace Panmail.Outbox

open Tables Runs List Nat

/-! ### Tokens name one claim, and a claim hands out a row once -/

structure Claims (w : World) : Prop where
  once : (w.claims.map ClaimCall.token).Nodup
  drawn : ∀ c ∈ w.claims, c.token ∈ w.tokens
  stamp : ∀ c ∈ w.claims, c.now ≤ w.clock
  row : ∀ {id r}, w.outbox.lookup id = some r → ∀ token, r.claimToken = some token →
    ∃ c ∈ w.claims, c.token = token ∧ c.phase ≠ .stamped
  pass : ∀ p ∈ w.passes, ∃ c ∈ w.claims, c.token = p.token ∧ c.phase = .listed
  passOnce : (w.passes.map fun p => (p.token, p.email.id)).Nodup

theorem claims_init : Claims World.init where
  once := nodup_nil
  drawn := fun _ mem => nomatch mem
  stamp := nofun
  row := nofun
  pass := fun _ mem => nomatch mem
  passOnce := nodup_nil

section
variable {lease : Time} {w t : World} {a : Action}

section
variable (inv : Claims w) (h : w.step lease a = some t)
include inv h

theorem claims_row (id : String) (r : OutboxRow) (row : t.outbox.lookup id = some r)
    (token : String) (claimed : r.claimToken = some token) :
    (∃ c ∈ w.claims, c.token = token ∧ c.phase ≠ .stamped) ∨
      ∃ i limit locked call, a = .claimUpdate i limit locked ∧ w.claims[i]? = some call ∧
        call.token = token := by
  have change := row_change h id
  rw [row] at change
  generalize before : w.outbox.lookup id = old at change
  cases change with
  | same => exact .inl (inv.row before token claimed)
  | created => simp [OutboxRow.new] at claimed
  | claimed _ i limit locked call taken found =>
    refine .inr ⟨i, limit, locked, call, taken, found, ?_⟩
    simpa [OutboxRow.claim] using claimed
  | renewed => exact .inl (inv.row before token claimed)
  | settled _ _ _ _ write _ _ _ _ _ _ result =>
    cases write with
    | update =>
      cases result
      simp [OutboxUpdate.apply] at claimed
    | delete => cases result
  | released => simp [OutboxUpdate.apply] at claimed

theorem claims_frame (claims : t.claims = w.claims) (tokens : t.tokens = w.tokens)
    (clock : w.clock ≤ t.clock) (passes : t.passes = w.passes)
    (other : ∀ i n l, a ≠ .claimUpdate i n l) : Claims t := by
  refine ⟨?_, ?_, ?_, ?_, ?_, ?_⟩
  · rw [claims]
    exact inv.once
  · rw [claims, tokens]
    exact inv.drawn
  · rw [claims]
    exact fun c mem => le_trans (inv.stamp c mem) clock
  · rw [claims]
    intro id r row token claimed
    rcases claims_row inv h id r row token claimed with old | ⟨i, n, l, _, same, _⟩
    · exact old
    · exact absurd same (other i n l)
  · rw [claims, passes]
    exact inv.pass
  · rw [passes]
    exact inv.passOnce

theorem Claims.step : Claims t := by
  cases step_cases h with
  | claimStart token fresh =>
    refine ⟨?_, ?_, ?_, ?_, ?_, inv.passOnce⟩
    · -- the token is new, so it tells the call from all others
      refine nodup_push inv.once fun c old same => fresh ?_
      have named : c.token = token := same
      exact named ▸ inv.drawn c old
    · refine forall_mem_concat (fun c old => ?_) mem_concat_self
      exact mem_append_left _ (inv.drawn c old)
    · exact forall_mem_concat inv.stamp (le_refl _)
    · intro id r row other claimed
      obtain ⟨c, mem, facts⟩ := inv.row row other claimed
      exact ⟨c, mem_append_left _ mem, facts⟩
    · intro p mem
      obtain ⟨c, mem, facts⟩ := inv.pass p mem
      exact ⟨c, mem_append_left _ mem, facts⟩
  | claimUpdate _ _ _ call found stamped =>
    have rows := claims_row inv h
    have mem := mem_of_getElem? found
    refine ⟨nodup_set inv.once found rfl, ?_, ?_, ?_, ?_, inv.passOnce⟩
    · exact forall_mem_set inv.drawn (inv.drawn call mem)
    · exact forall_mem_set inv.stamp (inv.stamp call mem)
    · intro id r row token claimed
      rcases rows id r row token claimed with old | ⟨_, _, _, _, same, found', named⟩
      · exact exists_mem_set found (fun facts => ⟨facts.1, by simp⟩) old
      · cases same
        rw [found, Option.some.injEq] at found'
        subst found'
        exact ⟨_, mem_set_here _ found, named, by simp⟩
    · intro p passing
      refine exists_mem_set found (fun facts => ?_) (inv.pass p passing)
      -- a call that is yet to run its update has no passes
      rw [stamped] at facts
      cases facts.2
  | claimList _ call found claimed =>
    have mem := mem_of_getElem? found
    refine ⟨nodup_set inv.once found rfl, ?_, ?_, ?_, ?_, ?_⟩
    · exact forall_mem_set inv.drawn (inv.drawn call mem)
    · exact forall_mem_set inv.stamp (inv.stamp call mem)
    · intro id r row token claimed
      exact exists_mem_set found (fun facts => ⟨facts.1, by simp⟩) (inv.row row token claimed)
    · refine forall_mem_append.mpr ⟨?_, forall_mem_map.mpr fun email _ => ?_⟩
      · exact fun p old => exists_mem_set found (fun facts => ⟨facts.1, rfl⟩) (inv.pass p old)
      · exact ⟨_, mem_set_here _ found, rfl, rfl⟩
    · -- the call was not listed before, so no pass carries its token yet
      have unlisted : ∀ p ∈ w.passes, p.token ≠ call.token := by
        intro p passing same
        obtain ⟨c, listed, named, phase⟩ := inv.pass p passing
        have one := inj_on_of_nodup_map inv.once listed mem (named.trans same)
        rw [one, claimed] at phase
        cases phase
      rw [map_append, map_map]
      refine nodup_append.mpr ⟨inv.passOnce, ?_, ?_⟩
      · have labels := (nodup_listClaimed w.outbox call.token).map
          (f := fun id => (call.token, id)) fun x y same => (Prod.mk.inj same).2
        rw [map_map] at labels
        exact labels
      · intro x old y new same
        obtain ⟨p, passing, rfl⟩ := mem_map.mp old
        obtain ⟨email, _, rfl⟩ := mem_map.mp new
        exact unlisted p passing (Prod.mk.inj same).1
  | pass _ _ p _ _ found moved =>
    have rows := claims_row inv h
    obtain ⟨sameToken, sameEmail, _⟩ := Pass.step_cases moved
    refine ⟨inv.once, inv.drawn, inv.stamp, ?_, ?_, ?_⟩
    · intro id r row token claimed
      rcases rows id r row token claimed with old | ⟨_, _, _, _, same, _⟩
      · exact old
      · cases same
    · exact forall_mem_set inv.pass (sameToken ▸ inv.pass p (mem_of_getElem? found))
    · exact nodup_set inv.passOnce found (by rw [sameToken, sameEmail])
  | create | releaseWrite | discardWrite | pruneTerminal | pruneHeld =>
    exact claims_frame inv h rfl rfl (le_refl _) rfl nofun
  | tick => exact claims_frame inv h rfl rfl (le_add_right _ _) rfl nofun
  | lost => exact inv
  | _ => exact { inv with }

end

end

/-! ### Clock readings -/

/-- The instants a pass has read, and the lease it knows of, are in order. -/
structure Pass.Timely (lease clock : Time) (p : Pass) : Prop where
  unconfirmed : ((∃ s, p.phase = .confirming s) ∨ p.phase = .waiting) →
    p.leaseEnd = none ∧ p.renewer = .idle
  confirming : ∀ s, p.phase = .confirming s → s ≤ clock
  renewing : ∀ s, p.renewer = .renewing s → s ≤ clock ∧ ∀ e, p.leaseEnd = some e → e ≤ s + lease
  lease : ∀ e, p.leaseEnd = some e → e ≤ clock + lease

open Pass

theorem timely_start (lease clock : Time) (token : String) (email : OutboxEmail) :
    (start token email).Timely lease clock where
  unconfirmed := fun _ => ⟨rfl, rfl⟩
  confirming := nofun
  renewing := nofun
  lease := nofun

variable {lease clock : Time} {p p' : Pass} {w t : World} {a : Action} {i : Nat}

theorem Pass.Timely.later {clock' : Time} (inv : p.Timely lease clock) (later : clock ≤ clock') :
    p.Timely lease clock' where
  unconfirmed := inv.unconfirmed
  confirming := fun s phase => le_trans (inv.confirming s phase) later
  renewing := fun s phase => ⟨le_trans (inv.renewing s phase).1 later, (inv.renewing s phase).2⟩
  lease := fun e known => Nat.le_trans (inv.lease e known) (Nat.add_le_add_right later lease)

/-- The lease a pass knows of only ever moves on. -/
def Pass.LeaseKept (p p' : Pass) : Prop :=
  ∀ e, p.leaseEnd = some e → ∃ e', p'.leaseEnd = some e' ∧ e ≤ e'

theorem leaseKept_of_eq (same : p'.leaseEnd = p.leaseEnd) : p.LeaseKept p' :=
  fun e known => ⟨e, same ▸ known, le_refl e⟩

theorem Pass.Timely.step {t t' : OutboxTable} {a : PassAction} (inv : p.Timely lease clock)
    (h : p.step lease clock t a = some (p', t')) : p'.Timely lease clock ∧ p.LeaseKept p' := by
  have idle {s : Time} (early : (∃ s, p.phase = .confirming s) ∨ p.phase = .waiting) :
      p.renewer ≠ .renewing s := by
    rw [(inv.unconfirmed early).2]
    exact nofun
  cases stepped h with
  | confirmStart waiting =>
    refine ⟨⟨fun _ => inv.unconfirmed (.inr waiting), ?_, ?_, inv.lease⟩, leaseKept_of_eq rfl⟩
    · intro s phase
      cases phase
      exact le_refl _
    · exact fun s renewing => absurd renewing (idle (.inr waiting))
  | confirmed stamp confirming =>
    have early : (∃ s, p.phase = .confirming s) ∨ p.phase = .waiting := .inl ⟨stamp, confirming⟩
    refine ⟨⟨nofun, nofun, fun s renewing => absurd renewing (idle early), ?_⟩, ?_⟩
    · -- the lease a confirmation sets runs from the instant read before it
      intro e known
      cases known
      exact Nat.add_le_add_right (inv.confirming stamp confirming) lease
    · intro e known
      cases (inv.unconfirmed early).1.symm.trans known
  | confirmUnheard | unconfirmed | settling | abandoned =>
    exact ⟨⟨nofun, nofun, inv.renewing, inv.lease⟩, leaseKept_of_eq rfl⟩
  | renewStart busy =>
    -- the renewer is started by `holdLease`, so the pass is past its confirmation
    refine ⟨⟨?_, inv.confirming, ?_, inv.lease⟩, leaseKept_of_eq rfl⟩
    · rintro (⟨s, phase⟩ | phase) <;> rcases busy with sending | ⟨_, _, settling⟩ <;> simp_all
    · intro s renewing
      cases renewing
      exact ⟨le_refl _, inv.lease⟩
  | renewed stamp renewing =>
    obtain ⟨bound, older⟩ := inv.renewing stamp renewing
    -- renewals run one after another, so this one's instant is the latest
    refine ⟨⟨fun early => absurd renewing (idle early), inv.confirming, nofun, ?_⟩,
      fun e known => ⟨stamp + lease, rfl, older e known⟩⟩
    intro e known
    cases known
    exact Nat.add_le_add_right bound lease
  | renewUnheard _ renewing =>
    exact ⟨⟨fun early => absurd renewing (idle early), inv.confirming, nofun, inv.lease⟩,
      leaseKept_of_eq rfl⟩
  | unrenewed _ _ _ renewing quiet =>
    exact ⟨⟨fun early => absurd renewing (idle early), inv.confirming,
      fun s still => absurd still (quiet s), inv.lease⟩, leaseKept_of_eq rfl⟩
  | storeLost refused =>
    refine ⟨⟨fun early => ?_, inv.confirming, nofun, inv.lease⟩, leaseKept_of_eq rfl⟩
    cases (inv.unconfirmed early).2.symm.trans refused
  | settle =>
    refine ⟨⟨?_, ?_, inv.renewing, inv.lease⟩, leaseKept_of_eq rfl⟩
    · rintro (⟨s, phase⟩ | phase) <;> simp only [booked] at phase <;> split at phase <;>
        cases phase
    · intro s phase
      simp only [booked] at phase
      split at phase <;> cases phase

theorem timely_step (inv : ∀ p ∈ w.passes, p.Timely lease w.clock) (h : w.step lease a = some t) :
    ∀ p ∈ t.passes, p.Timely lease t.clock := by
  cases passes_change h with
  | same clock passes =>
    rw [clock, passes]
    exact inv
  | ticked _ _ clock passes =>
    rw [clock, passes]
    exact fun p mem => (inv p mem).later (le_add_right _ _)
  | listed _ call _ clock passes =>
    rw [clock, passes]
    refine forall_mem_append.mpr ⟨inv, forall_mem_map.mpr fun email _ => ?_⟩
    exact timely_start lease w.clock call.token email
  | moved _ _ p _ _ clock found step passes =>
    rw [clock, passes]
    exact forall_mem_set inv ((inv p (mem_of_getElem? found)).step step).1

/-! ### The lease protects the row -/

/-- The row `p` works on carries `p`'s claim, at least until `e`. -/
def Owned (t : OutboxTable) (p : Pass) (e : Time) : Prop :=
  ∃ r u, t.lookup p.email.id = some r ∧ r.claimToken = some p.token ∧ r.status = .sending ∧
    r.claimedUntil = some u ∧ e ≤ u

/-- A pass that has not settled owns its row until the lease it knows of is over. -/
def Pass.Holds (clock : Time) (t : OutboxTable) (p : Pass) : Prop :=
  ∀ e, p.leaseEnd = some e → p.settled = false → clock ≤ e → Owned t p e

/-- A settling statement that runs does so before the lease its pass last had confirmed is
over, and is the first of its pass to run. -/
def settlesInLease (w : World) : Action → Bool
  | .pass i (.settle reply) =>
    match w.passes[i]? with
    | some p => decide (reply = .failed) ||
        (!p.settled && p.leaseEnd.any fun e => decide (w.clock ≤ e))
    | none => true
  | _ => true

theorem settlesInLease_iff {reply : Reply} (found : w.passes[i]? = some p)
    (runs : reply ≠ .failed) : settlesInLease w (.pass i (.settle reply)) = true ↔
      p.settled = false ∧ ∃ e, p.leaseEnd = some e ∧ w.clock ≤ e := by
  simp [settlesInLease, found, runs, Option.any_eq_true]

theorem owned_renewClaim {t : OutboxTable} {r : OutboxRow} {e until_ : Time}
    (row : t.lookup p.email.id = some r) (token : r.claimToken = some p.token)
    (sending : r.status = .sending) (bound : e ≤ until_) :
    Owned (renewClaim t p.email.id p.token until_) p e := by
  have owned : r.ownedBy p.email.id p.token = true :=
    ownedBy_iff.mpr ⟨id_of_lookup row, token, sending⟩
  refine ⟨{ r with claimedUntil := some until_ }, until_, ?_, token, sending, rfl, bound⟩
  rw [lookup_renewClaim, row, Option.map_some, if_pos owned]

/-- The pass's own steps keep its hold on the row, up to the one that settles it. -/
theorem Pass.Holds.step {t t' : OutboxTable} {a : PassAction} (timely : p.Timely lease clock)
    (holds : p.Holds clock t) (h : p.step lease clock t a = some (p', t')) :
    p'.Holds clock t' := by
  cases stepped h with
  | confirmed stamp _ answer | renewed stamp _ answer =>
    obtain ⟨r, row, token, sending⟩ := renewed_iff.mp answer
    intro e known _ _
    cases known
    exact owned_renewClaim row token sending (le_refl _)
  | confirmUnheard stamp confirming =>
    -- the pass gives up without a lease, whatever the row now says
    intro e known
    cases (timely.unconfirmed (.inl ⟨stamp, confirming⟩)).1.symm.trans known
  | renewUnheard stamp renewing =>
    -- the renewal ran though its answer was lost: it can only have extended the claim
    intro e known unsettled inLease
    obtain ⟨r, u, row, token, sending, _, _⟩ := holds e known unsettled inLease
    exact owned_renewClaim row token sending ((timely.renewing stamp renewing).2 e known)
  | settle =>
    -- still unsettled, so the statement was refused and the row is as it was
    intro e known unsettled inLease
    simp only [booked, Bool.or_eq_false_iff, decide_eq_false_iff_not, not_not] at unsettled
    simp only [unsettled.2, if_true]
    exact holds e known unsettled.1 inLease
  | _ => exact holds

structure Leased (lease : Time) (w : World) : Prop where
  reviewed : Reviewed w
  claims : Claims w
  timely : ∀ p ∈ w.passes, p.Timely lease w.clock

theorem leased_step (inv : Leased lease w) (h : w.step lease a = some t) : Leased lease t where
  reviewed := reviewed_step inv.reviewed h
  claims := inv.claims.step h
  timely := timely_step inv.timely h

theorem leased_init (lease : Time) : Leased lease World.init where
  reviewed := ⟨known_init, queue_init, payload_init⟩
  claims := claims_init
  timely := fun _ mem => nomatch mem

theorem pass_unique (claims : Claims w) {j : Nat} {q : Pass} (first : w.passes[i]? = some p)
    (second : w.passes[j]? = some q) (token : p.token = q.token) (row : p.email.id = q.email.id) :
    i = j :=
  position_unique claims.passOnce first second (by simp only [token, row])

section
variable (inv : Leased lease w) (holds : ∀ p ∈ w.passes, p.Holds w.clock w.outbox)
include inv holds

/-- What other processes do leaves a row in a running lease with its owner. -/
theorem owned_step (inTime : settlesInLease w a = true) (h : w.step lease a = some t) {j : Nat}
    (found : w.passes[j]? = some p) (away : ∀ pa, a ≠ .pass j pa) {e : Time}
    (known : p.leaseEnd = some e) (unsettled : p.settled = false) (inLease : w.clock ≤ e) :
    Owned t.outbox p e := by
  obtain ⟨r, u, row, token, sending, lease_, bound⟩ :=
    holds p (mem_of_getElem? found) e known unsettled inLease
  have change := row_change h p.email.id
  rw [row] at change
  generalize after : t.outbox.lookup p.email.id = new at change
  -- a claim that is this pass's row's and another pass's is this pass
  have other {i : Nat} {q : Pass} {pa : PassAction} (taken : a = .pass i pa)
      (found' : w.passes[i]? = some q) (named : q.email.id = p.email.id)
      (owned : r.claimToken = some q.token) : False := by
    rw [token, Option.some.injEq] at owned
    have same := pass_unique inv.claims found found' owned named.symm
    exact away pa (same ▸ taken)
  cases change with
  | same => exact ⟨r, u, after, token, sending, lease_, bound⟩
  | claimed _ _ _ _ call _ found' _ ok =>
    -- the claim compares with an instant read earlier, when the lease was running too
    have stamp := inv.claims.stamp call (mem_of_getElem? found')
    have running : call.now ≤ u := le_trans stamp (le_trans inLease bound)
    exact absurd (lapsed_of_claimable ok sending u lease_) (not_lt.mpr running)
  | renewed _ _ _ _ _ taken found' named owned => exact (other taken found' named owned).elim
  | settled _ _ reply q _ _ _ taken found' named settling =>
    by_cases runs : reply = .failed
    · -- a statement that did not run left the row as it was
      subst taken runs
      obtain ⟨q', _, outbox, entry, moved, rfl⟩ := step_pass h
      rw [found', Option.some.injEq] at entry
      subst entry
      simp only [step, settling, if_true, Option.some.injEq, Prod.mk.injEq] at moved
      exact ⟨r, u, moved.2 ▸ row, token, sending, lease_, bound⟩
    · -- a settlement in time is by a pass that holds the row itself
      subst taken
      obtain ⟨fresh, e', known', inLease'⟩ := (settlesInLease_iff found' runs).mp inTime
      obtain ⟨r', _, row', token', _⟩ :=
        holds q (mem_of_getElem? found') e' known' fresh inLease'
      rw [named, row, Option.some.injEq] at row'
      exact (other rfl found' named (row' ▸ token')).elim
  | released _ _ _ _ call _ _ _ found' writing named =>
    -- either the row is still held, or the one release of its record is over
    obtain ⟨_, hold⟩ := inv.reviewed.queue.writes found' writing
    rcases inv.reviewed.payload.held _ hold with unreleased | ⟨_, closed⟩
    · cases sending.symm.trans (unreleased r (named ▸ row))
    · cases writing.symm.trans (closed call (mem_of_getElem? found') rfl)
  | discarded _ _ call _ found' named =>
    -- what is discarded was rejected or expired, what is being sent was released
    obtain ⟨record, status, hold, logged, refused⟩ :=
      inv.reviewed.queue.discarding call (mem_of_getElem? found')
    have released := released_of_unheld inv.reviewed hold (named ▸ row) (by simp [sending])
    exact absurd (decision_unique inv.reviewed.queue logged released) refused
  | pruned _ _ _ failed => cases sending.symm.trans failed
  | prunedHeld _ _ _ held => cases sending.symm.trans held

theorem holds_step (inTime : settlesInLease w a = true) (h : w.step lease a = some t) :
    ∀ p ∈ t.passes, p.Holds t.clock t.outbox := by
  have others : ∀ j p, w.passes[j]? = some p → (∀ pa, a ≠ .pass j pa) → w.clock ≤ t.clock →
      p.Holds t.clock t.outbox := by
    intro j p found away later e known unsettled inLease
    exact owned_step inv holds inTime h found away known unsettled (le_trans later inLease)
  intro p mem
  cases passes_change h with
  | same clock passes quiet =>
    rw [passes] at mem
    obtain ⟨j, found⟩ := getElem?_of_mem mem
    exact others j p found (quiet j) (le_of_eq clock.symm)
  | ticked _ taken clock passes =>
    rw [passes] at mem
    obtain ⟨j, found⟩ := getElem?_of_mem mem
    subst taken
    exact others j p found nofun (clock ▸ le_add_right _ _)
  | listed _ _ taken clock passes =>
    rw [passes] at mem
    rcases mem_append.mp mem with old | new
    · obtain ⟨j, found⟩ := getElem?_of_mem old
      subst taken
      exact others j p found nofun (le_of_eq clock.symm)
    · obtain ⟨email, _, rfl⟩ := mem_map.mp new
      exact nofun
  | moved _ pa q _ taken clock found step passes =>
    rw [passes] at mem
    have busy := mem_of_getElem? found
    rcases mem_set_other mem with rfl | ⟨j, away, entry⟩
    · rw [clock]
      exact (holds q busy).step (inv.timely q busy) step
    · refine others j p entry (fun pa same => away ?_) (le_of_eq clock.symm)
      rw [taken] at same
      cases same
      rfl

theorem holds_along {as : List Action}
    (along : AllSteps (World.step lease) (fun w a => settlesInLease w a = true) w as)
    (run : exec (World.step lease) w as = some t) :
    Leased lease t ∧ ∀ p ∈ t.passes, p.Holds t.clock t.outbox :=
  invariant_along (World.step lease) (fun w a => settlesInLease w a = true)
    (fun w => Leased lease w ∧ ∀ p ∈ w.passes, p.Holds w.clock w.outbox)
    (fun _ _ _ inTime inv h => ⟨leased_step inv.1 h, holds_step inv.1 inv.2 inTime h⟩)
    w t as ⟨inv, holds⟩ along run

end

theorem leased_of_run {as : List Action} (run : exec (World.step lease) World.init as = some w) :
    Leased lease w :=
  invariant (World.step lease) (Leased lease) (fun _ _ _ inv h => leased_step inv h)
    World.init w as (leased_init lease) run

/-! ### Settling -/

/-- In a run whose settling statements all run in time, such a statement touches only a row that its
own worker holds. -/
theorem settle_touches_own_claim (lease : Time) (as : List Action) (w t : World) (i : Nat)
    (reply : Reply) (p : Pass) (id : String) (r : OutboxRow)
    (run : exec (World.step lease) World.init as = some w)
    (along : AllSteps (World.step lease) (fun w a => settlesInLease w a = true) World.init
      (as ++ [.pass i (.settle reply)]))
    (found : w.passes[i]? = some p) (h : w.step lease (.pass i (.settle reply)) = some t)
    (row : w.outbox.lookup id = some r) (changed : t.outbox.lookup id ≠ some r) :
    r.claimToken = some p.token := by
  obtain ⟨before, here⟩ := allSteps_append _ _ _ _ _ _ run along
  have inTime : settlesInLease w (.pass i (.settle reply)) = true := here.1
  obtain ⟨inv, holds⟩ := holds_along (leased_init lease) (fun _ mem => nomatch mem) before run
  by_cases runs : reply = .failed
  · -- nothing ran, so nothing changed
    obtain ⟨q, q', outbox, entry, moved, rfl⟩ := step_pass h
    simp only [Pass.step, runs, if_true] at moved
    split at moved <;> cases moved
    exact absurd row changed
  · obtain ⟨fresh, e, known, inLease⟩ := (settlesInLease_iff found runs).mp inTime
    obtain ⟨r', _, row', token, _⟩ :=
      holds p (mem_of_getElem? found) e known fresh inLease
    -- of all the ways a row can change, only the pass's own are left
    have change := row_change h id
    rw [row] at change
    generalize after : t.outbox.lookup id = new at change
    cases change with
    | same => exact absurd after changed
    | claimed _ _ _ _ _ taken => cases taken
    | renewed _ _ _ _ _ taken entry _ owned =>
      cases taken
      rw [found, Option.some.injEq] at entry
      exact entry ▸ owned
    | settled _ _ _ _ _ _ _ taken entry named =>
      cases taken
      rw [found, Option.some.injEq] at entry
      subst entry
      rw [named, row, Option.some.injEq] at row'
      exact row' ▸ token
    | released _ _ _ _ _ _ _ taken | discarded _ _ _ taken | pruned _ _ taken => cases taken
    | prunedHeld _ _ taken => cases taken

def claimTrace (token : String) (call pass : Nat) : List Action :=
  [.claimStart token, .claimUpdate call 500 [], .claimList call, .pass pass .confirmStart,
    .pass pass (.confirm .ok)]

def queuedMessage : OutboxEmail := ⟨"m", "t", "", .pending, 0, 0, "", 0, 0⟩

def deliveryTrace : List Action :=
  .create queuedMessage :: claimTrace "A" 0 0 ++ [.pass 0 (.sendDone .delete)]

theorem settle_touches_own_claim_delivery : ∃ w t p r,
    exec (World.step messageLease) World.init deliveryTrace = some w ∧
    w.step messageLease (.pass 0 (.settle .ok)) = some t ∧ w.passes[0]? = some p ∧
    w.outbox.lookup "m" = some r ∧ t.outbox.lookup "m" = none ∧ r.claimToken = some p.token := by
  have runs : ∃ w ∈ exec (World.step messageLease) World.init deliveryTrace,
      (∃ t ∈ w.step messageLease (.pass 0 (.settle .ok)), t.outbox.lookup "m" = none) ∧
      w.passes[0]?.isSome ∧ (w.outbox.lookup "m").isSome := by decide +kernel
  have along : AllSteps (World.step messageLease) (fun w a => settlesInLease w a = true)
      World.init (deliveryTrace ++ [.pass 0 (.settle .ok)]) := by decide +kernel
  simp only [Option.isSome_iff_exists] at runs
  obtain ⟨w, run, ⟨t, h, gone⟩, ⟨p, found⟩, r, row⟩ := runs
  exact ⟨w, t, p, r, run, h, found, row, gone,
    settle_touches_own_claim messageLease deliveryTrace w t 0 .ok p "m" r run along found h row
      (by simp [gone])⟩

/-- A worker whose renewals fail, while its send goes on past the end of its lease. -/
def lapseTrace : List Action :=
  .create queuedMessage :: claimTrace "A" 0 0 ++
    [.tick leaseRenewEvery, .pass 0 .renewStart, .pass 0 (.renew .failed),
      .tick leaseRenewEvery, .pass 0 .renewStart, .pass 0 (.renew .failed),
      .tick leaseRenewEvery, .pass 0 .renewStart, .pass 0 (.renew .failed), .tick 1]

/-- Another worker takes the message over and confirms its claim; the first worker's send
returns, its lost flag unset, and it settles. -/
theorem late_settle_deletes_new_owners_row : ∃ w t p r, exec (World.step messageLease) World.init
      (lapseTrace ++ claimTrace "B" 1 1 ++ [.pass 0 (.sendDone .delete)]) = some w ∧
    w.step messageLease (.pass 0 (.settle .ok)) = some t ∧ w.passes[0]? = some p ∧
    p.token = "A" ∧ w.outbox.lookup "m" = some r ∧ r.claimToken = some "B" ∧
    t.outbox.lookup "m" = none := by
  have runs : ∃ w ∈ exec (World.step messageLease) World.init
      (lapseTrace ++ claimTrace "B" 1 1 ++ [.pass 0 (.sendDone .delete)]),
      ∃ t ∈ w.step messageLease (.pass 0 (.settle .ok)), t.outbox.lookup "m" = none ∧
      ∃ p ∈ w.passes[0]?, p.token = "A" ∧
      ∃ r ∈ w.outbox.lookup "m", r.claimToken = some "B" := by decide +kernel
  obtain ⟨w, run, t, h, gone, p, found, first, r, row, second⟩ := runs
  exact ⟨w, t, p, r, run, h, found, first, row, second, gone⟩

end Panmail.Outbox
