import Panmail.Webhooks.Deliveries

/-!
# What a notification's row can become

Who may write a row, what a finished notification can still become, and how many attempts it
can record.
-/
namespace Panmail.Webhooks

open Tables Runs List Service Table Queue

/-! ### What a group does -/

/-- The notification whose outcome a group is about to record. -/
def Group.saves (g : Group) : Option WebhookDelivery :=
  match g.phase, g.rest with
  | .saving d _, _ => some d
  | .releasing _, d :: _ => some (released d)
  | _, _ => none

variable {config : Config} {table : DeliveryTable} {s t : Service} {label : Label} {id : String}
  {d : WebhookDelivery} {r : DeliveryRow}

section
variable {table' : DeliveryTable} {x y : Group} {move : GroupMove}
  (h : x.step config table move = some (table', y))
include h

theorem Group.webhookID_step : y.webhookID = x.webhookID := by
  cases Group.stepped h <;> rfl

/-- A group leaves the table alone, records an outcome, or defers its subscription. -/
theorem Group.table_step :
    table' = table ∨ (∃ d now, x.saves = some d ∧ table' = update table d now) ∨
      ∃ until_ now, move = .deferRest true now ∧
        table' = deferSubscription table x.webhookID until_ now := by
  have saved : ∀ d executed now, x.saves = some d → table' = Group.save table d executed now →
      table' = table ∨ ∃ d now, x.saves = some d ∧ table' = update table d now := by
    intro d executed now saves written
    rw [written, Group.save]
    split
    · exact .inr ⟨d, now, saves, rfl⟩
    · exact .inl rfl
  cases Group.stepped h with
  | save executed now d _ _ _ saving =>
    exact (saved d executed now (by rw [saves, saving]) rfl).imp_right .inl
  | release executed now _ d _ releasing queue =>
    exact (saved (released d) executed now (by rw [saves, releasing, queue]) rfl).imp_right .inl
  | deferRest executed now until_ =>
    cases executed
    · exact .inl rfl
    · exact .inr (.inr ⟨until_, now, rfl, rfl⟩)
  | _ => exact .inl rfl

end

/-! ### What a step does to a row -/

/-- What one step does to the row `id` names: the row before and the row after. -/
inductive RowChange (s : Service) (label : Label) (id : String) :
    Option DeliveryRow → Option DeliveryRow → Prop
  | same (row : Option DeliveryRow) : RowChange s label id row row
  | created (tenantID webhookID event payload : String) (now : Time)
      (taken : label = .create id tenantID webhookID event payload now) (fresh : id ∉ s.created) :
      RowChange s label id none (some (.new id tenantID webhookID event payload now))
  | claimed (r : DeliveryRow) (i : Nat) (answer : List DeliveryRow) (locked : List String)
      (token : String) (until_ now : Time) (taken : label = .claimUpdate i answer locked)
      (stamped : s.workers[i]? = some (.stamped now token)) (due : isDue now r = true) :
      RowChange s label id (some r) (some (r.claim token until_ now))
  | recorded (r : DeliveryRow) (i g : Nat) (move : GroupMove) (groups : List Group) (x : Group)
      (d : WebhookDelivery) (token : String) (now : Time) (taken : label = .group i g move)
      (worker : s.workers[i]? = some (.delivering groups)) (group : groups[g]? = some x)
      (saves : x.saves = some d) (named : d.id = id) (mine : d.claimToken = some token)
      (held : r.claimToken = some token) :
      RowChange s label id (some r) (some (r.record d now))
  | deferred (r : DeliveryRow) (until_ now : Time)
      (waiting : r.status = .pending ∨ r.status = .deferred) (later : r.nextAttemptAt < until_) :
      RowChange s label id (some r) (some (r.deferTo until_ now))
  | pruned (r : DeliveryRow) (terminal : r.status.isTerminal = true) :
      RowChange s label id (some r) none

namespace Queue

theorem lookup_claimUpdate (ids : List String) (token : String) (until_ now : Time) (id : String) :
    (claimUpdate table ids token until_ now).lookup id = table.lookup id ∨
      ∃ r, table.lookup id = some r ∧ r.id ∈ ids ∧ isDue now r = true ∧
        (claimUpdate table ids token until_ now).lookup id = some (r.claim token until_ now) := by
  refine (lookup_updateWhere_cases ..).imp_right fun ⟨r, found, chosen, after⟩ => ?_
  rw [Bool.and_eq_true, decide_eq_true_eq] at chosen
  exact ⟨r, found, chosen.1, chosen.2, after⟩

theorem lookup_update (d : WebhookDelivery) (now : Time) (id : String) :
    (update table d now).lookup id = table.lookup id ∨
      ∃ r token, table.lookup id = some r ∧ d.id = id ∧ d.claimToken = some token ∧
        r.claimToken = some token ∧ (update table d now).lookup id = some (r.record d now) := by
  rw [update]
  split
  · exact .inl rfl
  next token mine =>
    refine (lookup_updateWhere_cases ..).imp_right fun changed => ?_
    obtain ⟨r, found, chosen, after⟩ := changed
    rw [Bool.and_eq_true, decide_eq_true_eq, decide_eq_true_eq] at chosen
    have named := (lookup_iff.mp found).2
    exact ⟨r, token, found, chosen.1.symm.trans named, mine, chosen.2, after⟩

theorem lookup_deferSubscription (webhookID : String) (until_ now : Time) (id : String) :
    (deferSubscription table webhookID until_ now).lookup id = table.lookup id ∨
      ∃ r, table.lookup id = some r ∧ (r.status = .pending ∨ r.status = .deferred) ∧
        r.nextAttemptAt < until_ ∧
        (deferSubscription table webhookID until_ now).lookup id = some (r.deferTo until_ now) := by
  refine (lookup_updateWhere_cases ..).imp_right fun ⟨r, found, chosen, after⟩ => ?_
  simp only [Bool.and_eq_true, Bool.or_eq_true, decide_eq_true_eq] at chosen
  exact ⟨r, found, chosen.1.2, chosen.2, after⟩

theorem lookup_pruneTerminal (olderThan : Time) (id : String) :
    (pruneTerminal table olderThan).lookup id = table.lookup id ∨
      ∃ r, table.lookup id = some r ∧ r.status.isTerminal = true ∧
        (pruneTerminal table olderThan).lookup id = none := by
  refine (lookup_deleteWhere_cases ..).imp_right fun ⟨r, found, chosen, after⟩ => ?_
  rw [Bool.and_eq_true] at chosen
  exact ⟨r, found, chosen.1, after⟩

end Queue

theorem row_change (h : s.step config label = some t) (id : String) :
    RowChange s label id (s.table.lookup id) (t.table.lookup id) := by
  cases step_cases h with
  | create _ tenantID webhookID event payload now _ fresh inserted =>
    rw [lookup_insert? inserted]
    split
    next named =>
      have absent := (insert?_rows inserted).2
      cases named
      rw [absent]
      exact .created tenantID webhookID event payload now rfl fresh
    · exact .same _
  | claimUpdate i answer locked now token stamped =>
    rcases lookup_claimUpdate (claimIDs config answer locked) token
      (now + config.lease) now id with same | ⟨r, found, _, due, after⟩
    · rw [same]
      exact .same _
    · rw [found, after]
      exact .claimed r i answer locked token _ now rfl stamped due
  | group i g move groups x _ _ worker group moved =>
    rcases Group.table_step moved with rfl | ⟨d, now, saves, rfl⟩ | ⟨until_, now, _, rfl⟩
    · exact .same _
    · rcases lookup_update d now id with
        same | ⟨r, token, found, named, mine, held, after⟩
      · rw [same]
        exact .same _
      · rw [found, after]
        exact .recorded r i g move groups x d token now rfl worker group saves named mine held
    · rcases lookup_deferSubscription x.webhookID until_ now id with
        same | ⟨r, found, waiting, later, after⟩
      · rw [same]
        exact .same _
      · rw [found, after]
        exact .deferred r until_ now waiting later
  | prune olderThan =>
    rcases lookup_pruneTerminal olderThan id with same | ⟨r, found, terminal, after⟩
    · rw [same]
      exact .same _
    · rw [found, after]
      exact .pruned r terminal
  | _ => exact .same _

/-! ### Attempts -/

theorem le_of_nextAttempt {attempt : Nat} {delay : Time} (next : nextAttempt attempt = some delay) :
    attempt < maxAttempts := by
  rw [nextAttempt] at next
  split at next
  · cases next
  next inside =>
    simp only [not_or, Nat.not_lt] at inside
    exact Nat.lt_succ_of_le inside.2

/-- The attempts of a notification that is not finished leave room for another one. -/
def Counted (status : DeliveryStatus) (attemptCount : Nat) : Prop :=
  attemptCount ≤ maxAttempts ∧ (status.isTerminal = false → attemptCount < maxAttempts)

theorem counted_reschedule (now : Time) (reason : String) (bound : d.attemptCount ≤ maxAttempts) :
    Counted (reschedule now d reason).status (reschedule now d reason).attemptCount := by
  rw [reschedule]
  split
  · exact ⟨bound, nofun⟩
  next delay next => exact ⟨bound, fun _ => le_of_nextAttempt next⟩

theorem counted_outcome (now : Time) (result : PostResult) (bound : d.attemptCount ≤ maxAttempts) :
    Counted (outcome now d result).1.status (outcome now d result).1.attemptCount := by
  cases result with
  | disallowed => exact ⟨bound, nofun⟩
  | failed err => exact counted_reschedule now err bound
  | status =>
    simp only [outcome]
    split
    · exact ⟨bound, nofun⟩
    · split
      · exact counted_reschedule now _ bound
      · exact ⟨bound, nofun⟩

/-- The notifications a group holds have attempts left. -/
structure Group.Counted (g : Group) : Prop where
  rest : ∀ d ∈ g.rest, d.attemptCount < maxAttempts
  trying : ∀ d, g.phase = .reading d ∨ g.phase = .posting d → d.attemptCount ≤ maxAttempts
  saving : ∀ d unreachable, g.phase = .saving d unreachable →
    Webhooks.Counted d.status d.attemptCount

theorem Group.Counted.step {table' : DeliveryTable} {x y : Group} {move : GroupMove}
    (counted : x.Counted) (h : x.step config table move = some (table', y)) : y.Counted := by
  have tail {d : WebhookDelivery} {rest : List WebhookDelivery} (queue : x.rest = d :: rest) :
      d.attemptCount < maxAttempts ∧ ∀ d' ∈ rest, d'.attemptCount < maxAttempts :=
    forall_mem_cons.mp (queue ▸ counted.rest)
  cases Group.stepped h with
  | giveUp =>
    refine ⟨fun d' mem => ?_, nofun, nofun⟩
    obtain ⟨d, inside, rfl⟩ := mem_map.mp mem
    exact counted.rest d inside
  | start _ _ _ _ _ queue =>
    refine ⟨(tail queue).2, ?_, nofun⟩
    rintro d' (reading | posting)
    · cases reading
      exact (tail queue).1
    · cases posting
  | unposted _ now d _ reading recorded =>
    have bound := counted.trying d (.inl reading)
    refine ⟨counted.rest, nofun, fun _ _ saving => ?_⟩
    cases saving
    rcases recorded with ⟨_, rfl⟩ | ⟨reason, rfl⟩
    · exact ⟨bound, nofun⟩
    · exact counted_reschedule now reason bound
  | post _ d reading =>
    refine ⟨counted.rest, ?_, nofun⟩
    rintro d' (reading' | posting)
    · cases reading'
    · cases posting
      exact counted.trying d (.inl reading)
  | answer result now d posting =>
    refine ⟨counted.rest, nofun, fun _ _ saving => ?_⟩
    cases saving
    exact counted_outcome now result (counted.trying d (.inr posting))
  | release _ _ _ _ _ _ queue => exact ⟨(tail queue).2, nofun, nofun⟩
  | _ => exact ⟨counted.rest, nofun, nofun⟩

theorem Group.Counted.saves {g : Group} (counted : g.Counted) (saves : g.saves = some d) :
    Webhooks.Counted d.status d.attemptCount := by
  rw [Group.saves] at saves
  split at saves
  next saving => exact Option.some.inj saves ▸ counted.saving _ _ saving
  next e rest releasing queue =>
    cases saves
    have bound := counted.rest e (by rw [queue]; exact mem_cons_self)
    exact ⟨Nat.le_of_lt bound, fun _ => bound⟩
  · cases saves

/-! ### What holds in every state -/

def Worker.Counted : Worker → Prop
  | .delivering groups => ∀ g ∈ groups, g.Counted
  | _ => True

structure DeliveryRow.Sound (r : DeliveryRow) : Prop where
  /-- A row with a token is being sent. -/
  held : r.claimToken ≠ none → r.status = .sending
  counted : Webhooks.Counted r.status r.attemptCount

structure Service.Sound (s : Service) : Prop where
  rows : ∀ id r, s.table.lookup id = some r → r.Sound
  workers : ∀ w ∈ s.workers, w.Counted
  created : ∀ id r, s.table.lookup id = some r → id ∈ s.created

theorem sound_init (n : Nat) : (Service.init n).Sound where
  rows := nofun
  workers := fun w mem => by
    rw [eq_of_mem_replicate mem]
    trivial
  created := nofun

theorem isTerminal_of_isDue {now : Time} (due : isDue now r = true) :
    r.status.isTerminal = false := by
  rw [isDue, Bool.and_eq_true] at due
  obtain ⟨-, due⟩ := due
  revert due
  cases r.status <;> simp [DeliveryStatus.isTerminal]

theorem DeliveryRow.Sound.change {before : Option DeliveryRow} {r' : DeliveryRow}
    (sound : s.Sound) (rows : ∀ r, before = some r → r.Sound)
    (change : RowChange s label id before (some r')) : r'.Sound := by
  cases change with
  | same => exact rows r' rfl
  | created =>
    refine ⟨fun held => absurd rfl held, Nat.zero_le _, fun _ => ?_⟩
    exact Nat.zero_lt_succ _
  | claimed r _ _ _ _ _ _ _ _ due =>
    have bound := (rows r rfl).counted
    exact ⟨fun _ => rfl, bound.1, fun _ => bound.2 (isTerminal_of_isDue due)⟩
  | recorded _ _ _ _ groups x _ _ _ _ worker group saves _ _ held =>
    have all : ∀ x ∈ groups, x.Counted := sound.workers _ (mem_of_getElem? worker)
    have counted := (all x (mem_of_getElem? group)).saves saves
    exact ⟨fun held => absurd rfl held, counted⟩
  | deferred r => exact ⟨(rows r rfl).held, (rows r rfl).counted⟩

theorem counted_start {token : String} {answer : List DeliveryRow}
    (listed : Queue.Listed table token answer) (rows : ∀ id r, table.lookup id = some r → r.Sound) :
    ∀ g ∈ (bySubscription (answer.map (·.toWebhookDelivery))).map Group.start, g.Counted := by
  intro g mem
  obtain ⟨group, inside, rfl⟩ := mem_map.mp mem
  refine ⟨fun d has => ?_, nofun, nofun⟩
  change d ∈ group.2 at has
  rw [(grouped_bySubscription _).group group inside] at has
  obtain ⟨r, listedRow, rfl⟩ := mem_map.mp (mem_of_mem_filter has)
  have row := mem_selectWhere.mp (listed.1.mem_iff.mp listedRow)
  have sound := rows r.id r (lookup_iff.mpr ⟨row.1, rfl⟩)
  -- a row read back by its token is being sent
  have sending := sound.held (by rw [of_decide_eq_true row.2]; nofun)
  exact sound.counted.2 (by rw [sending]; rfl)

theorem created_step (h : s.step config label = some t) (known : id ∈ s.created) : id ∈ t.created := by
  cases step_cases h with
  | create => exact mem_append_left _ known
  | _ => exact known

theorem Service.Sound.step (sound : s.Sound) (h : s.step config label = some t) : t.Sound := by
  refine ⟨fun id r found => ?_, ?_, fun id r found => ?_⟩
  · have change := row_change h id
    rw [found] at change
    exact DeliveryRow.Sound.change sound (fun r before => sound.rows id r before) change
  · cases step_cases h with
    | create | prune => exact sound.workers
    | claimList _ _ _ _ listed =>
      exact forall_mem_set sound.workers (counted_start listed sound.rows)
    | group _ _ _ groups x _ _ worker group moved =>
      have all : ∀ x ∈ groups, x.Counted := sound.workers _ (mem_of_getElem? worker)
      exact forall_mem_set sound.workers
        (forall_mem_set all ((all x (mem_of_getElem? group)).step moved))
    | _ => exact forall_mem_set sound.workers trivial
  · have known : ∀ r, s.table.lookup id = some r → id ∈ t.created := fun r before =>
      created_step h (sound.created id r before)
    have change := row_change h id
    rw [found] at change
    generalize before : s.table.lookup id = row at change known
    cases change with
    | created _ _ _ _ _ taken =>
      subst taken
      cases step_cases h
      exact mem_concat_self
    | _ => exact known _ rfl

/-! ### The guarantees -/

/-- The step writes an outcome to the row: a status other than the claim's, an attempt, or an
error. -/
def Records (r r' : DeliveryRow) : Prop :=
  r'.status ≠ r.status ∧ r'.status ≠ .sending ∨ r'.attemptCount ≠ r.attemptCount ∨
    r'.lastError ≠ r.lastError

structure OutcomeSafety (config : Config) (s : Service) : Prop where
  /-- A notification recorded as delivered or failed stays as it is until it is pruned. -/
  final : ∀ id r, s.table.lookup id = some r → r.status.isTerminal = true →
    ∀ rest t, exec (Service.step config) s rest = some t →
      t.table.lookup id = some r ∨ t.table.lookup id = none
  /-- An outcome is recorded by a worker whose copy has the token that is on the row. -/
  holder : ∀ label t id r r', s.step config label = some t → s.table.lookup id = some r →
    t.table.lookup id = some r' → Records r r' →
    ∃ i g move groups x d token, label = .group i g move ∧
      s.workers[i]? = some (.delivering groups) ∧ groups[g]? = some x ∧ x.saves = some d ∧
      d.id = id ∧ d.claimToken = some token ∧ r.claimToken = some token
  /-- `DeferSubscription` keeps off rows that are held, and brings nothing forward. -/
  deferral : ∀ i g now t, s.step config (.group i g (.deferRest true now)) = some t →
    ∀ id r, s.table.lookup id = some r → ∃ r', t.table.lookup id = some r' ∧
      (r.claimToken ≠ none → r' = r) ∧ r.nextAttemptAt ≤ r'.nextAttemptAt
  attempts : ∀ r ∈ s.table.rows, r.attemptCount ≤ maxAttempts

theorem final_step {after : Option DeliveryRow} (sound : r.Sound)
    (terminal : r.status.isTerminal = true) (change : RowChange s label id (some r) after) :
    after = some r ∨ after = none := by
  cases change with
  | same => exact .inl rfl
  | claimed _ _ _ _ _ _ _ _ _ due =>
    rw [isTerminal_of_isDue due] at terminal
    cases terminal
  | recorded _ _ _ _ _ _ _ _ _ _ _ _ _ _ _ held =>
    rw [sound.held (by rw [held]; nofun)] at terminal
    cases terminal
  | deferred _ _ _ waiting =>
    rcases waiting with pending | deferred
    · rw [pending] at terminal
      cases terminal
    · rw [deferred] at terminal
      cases terminal
  | pruned => exact .inr rfl

theorem Service.Sound.final {rest : List Label} (sound : s.Sound)
    (found : s.table.lookup id = some r) (terminal : r.status.isTerminal = true)
    (run : exec (Service.step config) s rest = some t) :
    t.table.lookup id = some r ∨ t.table.lookup id = none := by
  have kept : t.Sound ∧ id ∈ t.created ∧
      (t.table.lookup id = some r ∨ t.table.lookup id = none) := by
    refine invariant (Service.step config)
      (fun u => u.Sound ∧ id ∈ u.created ∧ (u.table.lookup id = some r ∨ u.table.lookup id = none))
      (fun u label v ⟨sound, known, now⟩ h => ⟨sound.step h, created_step h known, ?_⟩) s t rest
      ⟨sound, sound.created id r found, .inl found⟩ run
    have change := row_change h id
    rcases now with stays | gone
    · rw [stays] at change
      exact final_step (sound.rows id r stays) terminal change
    · rw [gone] at change
      generalize v.table.lookup id = after at change
      cases change with
      | same => exact .inr rfl
      | created _ _ _ _ _ _ fresh => exact absurd known fresh
  exact kept.2.2

/-- Every row of every state that workers, in any number and in any interleaving, can reach. -/
theorem outcomes_safe (config : Config) (n : Nat) {labels : List Label} {s : Service}
    (run : exec (Service.step config) (Service.init n) labels = some s) :
    OutcomeSafety config s := by
  have sound : s.Sound := invariant (Service.step config) Service.Sound
    (fun _ _ _ sound h => sound.step h) (Service.init n) s labels (sound_init n) run
  refine ⟨fun id r found terminal rest t run => sound.final found terminal run,
    fun label t id r r' h found found' records => ?_, fun i g now t h id r found => ?_,
    fun r member => (sound.rows r.id r (Table.lookup_iff.mpr ⟨member, rfl⟩)).counted.1⟩
  · have change := row_change h id
    rw [found, found'] at change
    cases change with
    | same => exact absurd records (by simp [Records])
    | claimed => exact absurd records (by simp [Records, DeliveryRow.claim])
    | recorded _ i g move groups x d token _ taken worker group saves named mine held =>
      exact ⟨i, g, move, groups, x, d, token, taken, worker, group, saves, named, mine, held⟩
    | deferred => exact absurd records (by simp [Records, DeliveryRow.deferTo])
  · cases Service.step_cases h with
    | group _ _ _ _ x _ _ _ _ moved =>
      cases Group.stepped moved with
      | finish => exact ⟨r, found, fun _ => rfl, Nat.le_refl _⟩
      | deferRest _ _ until_ =>
        rcases Queue.lookup_deferSubscription x.webhookID until_ now id with
          same | ⟨r', found', waiting, later, after⟩
        · exact ⟨r, same.trans found, fun _ => rfl, Nat.le_refl _⟩
        · cases found.symm.trans found'
          refine ⟨_, after, fun held => ?_, Nat.le_of_lt later⟩
          have sending := (sound.rows id r found).held held
          rcases waiting with pending | deferred
          · cases sending.symm.trans pending
          · cases sending.symm.trans deferred

/-- A notification that is created, claimed, posted and recorded as delivered. -/
def firstRow : DeliveryRow := .new "n1" "t" "w" "MAIL_SENT" "payload" 0

def deliverFirst : List Label :=
  [.create "n1" "t" "w" "MAIL_SENT" "payload" 0, .claimStart 0 1 "token",
    .claimUpdate 0 [firstRow] [], .claimList 0 [firstRow.claim "token" (1 + 2 * minute) 1],
    .group 0 0 (.next false 2), .group 0 0 (.subscription .active 2),
    .group 0 0 (.answer (.status 200) 3), .group 0 0 (.save true 3)]

theorem outcomes_safe_deliverFirst :
    ∃ s r, exec (Service.step defaultConfig) (Service.init 2) deliverFirst = some s ∧
      s.table.lookup "n1" = some r ∧ r.status = .delivered ∧
      ∀ rest t, exec (Service.step defaultConfig) s rest = some t →
        t.table.lookup "n1" = some r ∨ t.table.lookup "n1" = none := by
  have runs : ∃ s ∈ exec (Service.step defaultConfig) (Service.init 2) deliverFirst,
      ∃ r ∈ s.table.lookup "n1", r.status = .delivered := by decide
  obtain ⟨s, run, r, found, delivered⟩ := runs
  refine ⟨s, r, run, found, delivered, ?_⟩
  exact (outcomes_safe defaultConfig 2 run).final "n1" r found (by rw [delivered]; rfl)

end Panmail.Webhooks
