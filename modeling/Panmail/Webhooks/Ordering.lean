import Mathlib.Data.Fintype.Basic
import Panmail.Webhooks.Outcomes

/-!
# One notification of a subscription at a time

A batch posts a subscription's notifications one after the other, the oldest first. Two batches
that both have notifications of a subscription do not keep to that between them, and neither does
a batch that follows one which put its notifications off.
-/
namespace Panmail.Webhooks

open Tables Runs List Table

/-! ### What a group has in hand -/

def GroupPhase.current : GroupPhase → Option WebhookDelivery
  | .reading d | .posting d | .saving d _ => some d
  | _ => none

def GroupPhase.isActive : GroupPhase → Bool
  | .ready | .reading _ | .posting _ | .saving _ _ => true
  | _ => false

def GroupPhase.isFinished : GroupPhase → Bool
  | .finished => true
  | _ => false

/-- The notifications of a group that are not recorded or handed back yet. -/
def Group.held (g : Group) : List WebhookDelivery := g.phase.current.toList ++ g.rest

/-- Those that are not tried yet. -/
def Group.waiting (g : Group) : List WebhookDelivery :=
  match g.phase with
  | .reading d => d :: g.rest
  | _ => g.rest

/-- What no attempt changes of a notification. -/
def WebhookDelivery.key (d : WebhookDelivery) : String × String × Time × Option String :=
  (d.id, d.webhookID, d.createdAt, d.claimToken)

theorem key_reschedule (now : Time) (d : WebhookDelivery) (reason : String) :
    (reschedule now d reason).key = d.key := by
  rw [reschedule]
  split <;> rfl

theorem key_outcome (now : Time) (d : WebhookDelivery) (result : PostResult) :
    (outcome now d result).1.key = d.key := by
  cases result with
  | disallowed => rfl
  | failed err => exact key_reschedule now d err
  | status =>
    simp only [outcome]
    split
    · rfl
    · split
      · exact key_reschedule ..
      · rfl

open GroupPhase

variable {config : Config} {table : DeliveryTable} {x y : Group} {s t : Service} {label : Label}
  {i j : Nat} {d : WebhookDelivery} {answer : List DeliveryRow} {id webhookID : String}
  {now : Time} {r : DeliveryRow} {w : Worker}

section
variable {table' : DeliveryTable} {move : GroupMove}
  (h : x.step config table move = some (table', y))
include h

/-- A group comes by no notifications, and keeps them in their order. -/
theorem Group.held_step :
    (y.held.map WebhookDelivery.key).Sublist (x.held.map WebhookDelivery.key) := by
  have same {d d' : WebhookDelivery} (key : d'.key = d.key) (current : x.phase.current = some d) :
      ((d' :: x.rest).map WebhookDelivery.key).Sublist (x.held.map WebhookDelivery.key) := by
    simp [held, current, key]
  cases Group.stepped h with
  | finish | halt | handBack | deferRest => simp [held, current]
  | giveUp _ _ _ ready =>
    simp only [held, ready, current, Option.toList_none, nil_append, map_map]
    exact List.Sublist.refl _
  | start _ _ _ _ ready queue =>
    simp only [held, ready, queue, current, Option.toList_none, Option.toList_some,
      nil_append, singleton_append, map_cons]
    exact List.Sublist.refl _
  | unposted _ now d _ reading recorded =>
    refine same ?_ (by rw [reading]; rfl)
    rcases recorded with ⟨_, rfl⟩ | ⟨reason, rfl⟩
    · rfl
    · exact key_reschedule now d reason
  | post _ _ reading => exact same rfl (by rw [reading]; rfl)
  | answer result now d posting => exact same (key_outcome now d result) (by rw [posting]; rfl)
  | save | release _ _ _ _ _ _ queue => simp [held, current, *]

/-- A finished group takes no step, and one that has begun to hand notifications back does not
return to posting. -/
theorem Group.active_step :
    x.phase.isFinished = false ∧ (y.phase.isActive = true → x.phase.isActive = true ∧
      ∀ d ∈ x.waiting, d.id ∈ y.tries ∨ ∃ d' ∈ y.waiting, d'.id = d.id) := by
  cases Group.stepped h with
  | finish _ ended =>
    rcases ended with ready | releasing
    · exact ⟨by rw [ready]; rfl, nofun⟩
    · exact ⟨by rw [releasing]; rfl, nofun⟩
  | halt _ phase | giveUp _ _ _ phase | release _ _ _ _ _ phase | handBack _ _ _ phase
  | deferRest _ _ _ phase => exact ⟨by rw [phase]; rfl, nofun⟩
  | start _ _ d rest phase queue =>
    refine ⟨by rw [phase]; rfl, fun _ => ⟨by rw [phase]; rfl, fun e mem => .inr ?_⟩⟩
    simp only [waiting, phase, queue] at mem
    rcases mem_cons.mp mem with rfl | later
    · exact ⟨_, mem_cons_self, rfl⟩
    · exact ⟨e, mem_cons_of_mem _ later, rfl⟩
  | unposted _ now d d' phase recorded =>
    have same : d'.id = d.id := by
      rcases recorded with ⟨_, rfl⟩ | ⟨reason, rfl⟩
      · rfl
      · exact congrArg (·.1) (key_reschedule now d reason)
    refine ⟨by rw [phase]; rfl, fun _ => ⟨by rw [phase]; rfl, fun e mem => ?_⟩⟩
    simp only [waiting, phase] at mem
    rcases mem_cons.mp mem with rfl | later
    · exact .inl (mem_singleton.mpr same.symm)
    · exact .inr ⟨e, later, rfl⟩
  | post _ d phase =>
    refine ⟨by rw [phase]; rfl, fun _ => ⟨by rw [phase]; rfl, fun e mem => ?_⟩⟩
    simp only [waiting, phase] at mem
    rcases mem_cons.mp mem with rfl | later
    · exact .inl mem_cons_self
    · exact .inr ⟨e, later, rfl⟩
  | answer _ _ _ phase | save _ _ _ _ _ _ phase =>
    refine ⟨by rw [phase]; rfl, fun _ => ⟨by rw [phase]; rfl, fun e mem => .inr ⟨e, ?_, rfl⟩⟩⟩
    simpa only [waiting, phase] using mem

end

/-! ### What a step does to a worker -/

inductive WorkerStep (config : Config) (s : Service) (j : Nat) : Label → Worker → Prop
  | start (now : Time) (token : String) (fresh : token ∉ s.tokens) :
      WorkerStep config s j (.claimStart j now token) (.stamped now token)
  | claim (answer : List DeliveryRow) (locked : List String) (now : Time) (token : String)
      (stamped : s.workers[j]? = some (.stamped now token)) :
      WorkerStep config s j (.claimUpdate j answer locked) (.claimed token)
  | list (answer : List DeliveryRow) (token : String)
      (claimed : s.workers[j]? = some (.claimed token))
      (listed : Queue.Listed s.table token answer) :
      WorkerStep config s j (.claimList j answer) (.delivering
        ((bySubscription (answer.map (·.toWebhookDelivery))).map Group.start))
  | group (g : Nat) (move : GroupMove) (groups : List Group) (x y : Group)
      (table : DeliveryTable) (worker : s.workers[j]? = some (.delivering groups))
      (found : groups[g]? = some x) (moved : x.step config s.table move = some (table, y)) :
      WorkerStep config s j (.group j g move) (.delivering (groups.set g y))
  | idle (label : Label) : WorkerStep config s j label .idle

theorem worker_step (h : s.step config label = some t) (after : t.workers[j]? = some w) :
    s.workers[j]? = some w ∨ WorkerStep config s j label w := by
  have moved : ∀ {i : Nat} {new : Worker}, (s.workers.set i new)[j]? = some w →
      WorkerStep config s i label new →
      s.workers[j]? = some w ∨ WorkerStep config s j label w := by
    intro i new entry mine
    rcases getElem?_set_cases entry with ⟨rfl, rfl⟩ | ⟨_, old⟩
    · exact .inr mine
    · exact .inl old
  cases Service.step_cases h with
  | claimStart _ now token _ fresh => exact moved after (.start now token fresh)
  | claimUpdate _ answer locked now token stamped =>
    exact moved after (.claim answer locked now token stamped)
  | claimList _ answer token claimed listed =>
    exact moved after (.list answer token claimed listed)
  | group _ g move groups x table y worker found stepped =>
    exact moved after (.group g move groups x y table worker found stepped)
  | endBatch | crash => exact moved after (.idle _)
  | create | prune => exact .inl after

def Worker.token : Worker → Option String
  | .stamped _ token | .claimed token => some token
  | _ => none

def Worker.groups : Worker → List Group
  | .delivering groups => groups
  | _ => []

/-- The worker has a claim or a batch with notifications of the subscription. -/
def Worker.inHand (table : DeliveryTable) (webhookID : String) : Worker → Bool
  | .claimed token => table.rows.any fun r =>
      decide (r.claimToken = some token) && decide (r.webhookID = webhookID)
  | .delivering groups => groups.any fun x =>
      decide (x.webhookID = webhookID) && !x.phase.isFinished
  | _ => false

theorem token_step (h : s.step config label = some t) {token : String}
    (after : t.workers[j]? = some w) (has : w.token = some token) :
    (∃ w', s.workers[j]? = some w' ∧ w'.token = some token) ∨
      token ∉ s.tokens ∧ ∃ now, label = .claimStart j now token := by
  rcases worker_step h after with same | step
  · exact .inl ⟨w, same, has⟩
  · cases step with
    | start now _ fresh =>
      cases has
      exact .inr ⟨fresh, now, rfl⟩
    | claim _ _ _ _ stamped =>
      cases has
      exact .inl ⟨_, stamped, rfl⟩
    | list | group | idle => cases has

namespace Service

def Delivers (s : Service) (i g : Nat) (x : Group) : Prop :=
  ∃ groups, s.workers[i]? = some (.delivering groups) ∧ groups[g]? = some x

variable {g n : Nat} {group : String × List WebhookDelivery} {token : String} {r' : DeliveryRow}
  {locked : List String}

theorem delivers_step (h : s.step config label = some t) (delivers : t.Delivers i g y) :
    s.Delivers i g y ∨ (∃ move x table, label = .group i g move ∧ s.Delivers i g x ∧
        x.step config s.table move = some (table, y)) ∨
      ∃ answer token group, label = .claimList i answer ∧
        s.workers[i]? = some (.claimed token) ∧ Queue.Listed s.table token answer ∧
        group ∈ bySubscription (answer.map (·.toWebhookDelivery)) ∧ y = Group.start group := by
  obtain ⟨groups, worker, found⟩ := delivers
  rcases worker_step h worker with same | step
  · exact .inl ⟨groups, same, found⟩
  · cases step with
    | list answer token claimed listed =>
      obtain ⟨group, mem, rfl⟩ := mem_map.mp (mem_of_getElem? found)
      exact .inr (.inr ⟨answer, token, group, rfl, claimed, listed, mem, rfl⟩)
    | group _ move groups x _ table delivering before moved =>
      rcases getElem?_set_cases found with ⟨rfl, rfl⟩ | ⟨_, old⟩
      · exact .inr (.inl ⟨move, x, table, rfl, ⟨groups, delivering, before⟩, moved⟩)
      · exact .inl ⟨groups, delivering, old⟩

theorem tokens_step (h : s.step config label = some t) :
    s.tokens ⊆ t.tokens ∧ s.attempted ⊆ t.attempted := by
  cases step_cases h with
  | claimStart => exact ⟨subset_append_left _ _, List.Subset.refl _⟩
  | group => exact ⟨List.Subset.refl _, subset_append_left _ _⟩
  | _ => exact ⟨List.Subset.refl _, List.Subset.refl _⟩

/-! ### Tokens -/

/-- A token names one claim. -/
structure Tokens (s : Service) : Prop where
  drawn : ∀ {i : Nat} {w : Worker} {token : String}, s.workers[i]? = some w →
    w.token = some token → token ∈ s.tokens
  own : ∀ {i j : Nat} {w w' : Worker} {token : String}, s.workers[i]? = some w →
    s.workers[j]? = some w' → w.token = some token → w'.token = some token → i = j
  memory : ∀ {i g : Nat} {x : Group} {d : WebhookDelivery} {token : String}, s.Delivers i g x →
    d ∈ x.held → d.claimToken = some token → token ∈ s.tokens ∧
      ∀ {j : Nat} {w : Worker}, s.workers[j]? = some w → w.token ≠ some token
  rows : ∀ {id : String} {r : DeliveryRow} {token : String}, s.table.lookup id = some r →
    r.claimToken = some token → token ∈ s.tokens ∧
      ∀ {j : Nat} {now : Time}, s.workers[j]? ≠ some (.stamped now token)

theorem held_before {table' : DeliveryTable} {move : GroupMove}
    (moved : x.step config table move = some (table', y)) (mem : d ∈ y.held) :
    ∃ d' ∈ x.held, d'.key = d.key :=
  mem_map.mp ((Group.held_step moved).subset (mem_map_of_mem mem))

theorem held_start (inside : group ∈ bySubscription (answer.map (·.toWebhookDelivery))) :
    (Group.start group).held =
      (answer.map (·.toWebhookDelivery)).filter fun d => decide (d.webhookID = group.1) :=
  (grouped_bySubscription _).group group inside

theorem row_of_start (listed : Queue.Listed table token answer)
    (inside : group ∈ bySubscription (answer.map (·.toWebhookDelivery)))
    (mem : d ∈ (Group.start group).held) :
    ∃ r, table.lookup r.id = some r ∧ r.toWebhookDelivery = d ∧ r.claimToken = some token ∧
      r.webhookID = group.1 := by
  rw [held_start inside, mem_filter] at mem
  obtain ⟨r, read, rfl⟩ := mem_map.mp mem.1
  obtain ⟨row, claimed⟩ := mem_selectWhere.mp (listed.1.mem_iff.mp read)
  exact ⟨r, lookup_iff.mpr ⟨row, rfl⟩, rfl, of_decide_eq_true claimed,
    of_decide_eq_true mem.2⟩

theorem Tokens.step (tokens : s.Tokens) (h : s.step config label = some t) : t.Tokens := by
  have more := (tokens_step h).1
  have drawn : ∀ {i : Nat} {w : Worker} {token : String}, t.workers[i]? = some w →
      w.token = some token → token ∈ t.tokens := by
    intro i w token worker has
    rcases token_step h worker has with ⟨w', before, had⟩ | ⟨_, now, rfl⟩
    · exact more (tokens.drawn before had)
    · cases step_cases h
      exact mem_concat_self
  -- a token drawn before this step is not drawn by it
  have settled : ∀ {token : String}, token ∈ s.tokens →
      (∀ {j : Nat} {w : Worker}, s.workers[j]? = some w → w.token ≠ some token) →
      ∀ {j : Nat} {w : Worker}, t.workers[j]? = some w → w.token ≠ some token := by
    intro token old away j w worker has
    rcases token_step h worker has with ⟨w', before, had⟩ | ⟨fresh, _⟩
    · exact away before had
    · exact fresh old
  refine ⟨drawn, ?_, ?_, ?_⟩
  · intro i j w w' token worker worker' has has'
    rcases token_step h worker has with ⟨u, before, had⟩ | ⟨fresh, now, rfl⟩
    · rcases token_step h worker' has' with ⟨u', before', had'⟩ | ⟨fresh, _⟩
      · exact tokens.own before before' had had'
      · exact absurd (tokens.drawn before had) fresh
    · rcases token_step h worker' has' with ⟨u', before', had'⟩ | ⟨_, now', same⟩
      · exact absurd (tokens.drawn before' had') fresh
      cases same
      rfl
  · intro i g y d token delivers mem has
    rcases delivers_step h delivers with
      same | ⟨move, x, table, rfl, before, moved⟩ | ⟨answer, drawn, group, rfl, claimed, listed, inside, rfl⟩
    · obtain ⟨old, away⟩ := tokens.memory same mem has
      exact ⟨more old, settled old away⟩
    · obtain ⟨d', held, key⟩ := held_before moved mem
      have had : d'.claimToken = some token := (congrArg (·.2.2.2) key).trans has
      obtain ⟨old, away⟩ := tokens.memory before held had
      exact ⟨more old, settled old away⟩
    · obtain ⟨r, row, rfl, mine, _⟩ := row_of_start listed inside mem
      cases has.symm.trans mine
      refine ⟨more (tokens.drawn claimed rfl), fun {j w} worker has => ?_⟩
      -- the worker itself no longer claims, and no other one has its token
      rcases worker_step h worker with same | step
      · cases tokens.own same claimed has rfl
        cases step_cases h
        cases (getElem?_set_here _ claimed).symm.trans worker
        cases has
      · cases step with
        | list | idle => cases has
  · intro id r token found has
    have change := row_change h id
    rw [found] at change
    have kept : ∀ {id : String} {r : DeliveryRow}, s.table.lookup id = some r →
        r.claimToken = some token → token ∈ t.tokens ∧
          ∀ {j : Nat} {now : Time}, t.workers[j]? ≠ some (.stamped now token) := by
      intro id r before had
      obtain ⟨old, away⟩ := tokens.rows before had
      refine ⟨more old, fun {j now} worker => ?_⟩
      rcases worker_step h worker with same | step
      · exact away same
      · cases step with
        | start _ _ fresh => exact fresh old
    generalize before : s.table.lookup id = row at change
    cases change with
    | same => exact kept before has
    | created => cases has
    | claimed _ _ _ _ _ _ _ taken stamped =>
      cases has
      subst taken
      refine ⟨more (tokens.drawn stamped rfl), fun {j now'} worker => ?_⟩
      rcases worker_step h worker with same | step
      · cases tokens.own same stamped rfl rfl
        cases step_cases h
        cases (getElem?_set_here _ stamped).symm.trans worker
      · cases step
    | recorded => cases has
    | deferred => exact kept before has

/-! ### Notifications in hand -/

theorem change_keeps {before : Option DeliveryRow}
    (change : RowChange s label id before (some r')) :
    (∃ r, before = some r ∧ r'.webhookID = r.webhookID ∧ r'.createdAt = r.createdAt) ∨
      id ∉ s.created ∧ ∃ tenantID webhookID event payload now,
        label = .create id tenantID webhookID event payload now ∧
        r' = .new id tenantID webhookID event payload now := by
  cases change with
  | same => exact .inl ⟨_, rfl, rfl, rfl⟩
  | created tenantID webhookID event payload now taken fresh =>
    exact .inr ⟨fresh, tenantID, webhookID, event, payload, now, taken, rfl⟩
  | claimed r | recorded r | deferred r => exact .inl ⟨r, rfl, rfl, rfl⟩

/-- What is in hand is of the group's subscription, in the order of creation, and agrees with the
table. -/
structure Memory (s : Service) : Prop where
  webhook : ∀ {i g : Nat} {x : Group} {d : WebhookDelivery}, s.Delivers i g x → d ∈ x.held →
    d.webhookID = x.webhookID
  sorted : ∀ {i g : Nat} {x : Group}, s.Delivers i g x →
    x.held.Pairwise fun d d' => d.createdAt ≤ d'.createdAt
  known : ∀ {i g : Nat} {x : Group} {d : WebhookDelivery}, s.Delivers i g x → d ∈ x.held →
    d.id ∈ s.created
  agrees : ∀ {i g : Nat} {x : Group} {d : WebhookDelivery} {r : DeliveryRow}, s.Delivers i g x →
    d ∈ x.held → s.table.lookup d.id = some r → r.createdAt = d.createdAt
  distinct : ∀ {i : Nat} {groups : List Group}, s.workers[i]? = some (.delivering groups) →
    (groups.map Group.webhookID).Nodup

theorem sorted_iff {ds : List WebhookDelivery} :
    (ds.Pairwise fun d d' => d.createdAt ≤ d'.createdAt) ↔
      (ds.map WebhookDelivery.key).Pairwise fun k k' => k.2.2.1 ≤ k'.2.2.1 := by
  rw [pairwise_map]
  rfl

theorem Memory.step (memory : s.Memory) (sound : s.Sound) (h : s.step config label = some t) :
    t.Memory := by
  refine ⟨?_, ?_, ?_, ?_, ?_⟩
  · intro i g y d delivers mem
    -- a group was there, or took a step, or its batch has just been read
    rcases delivers_step h delivers with
      same | ⟨move, x, table, rfl, before, moved⟩ | ⟨_, _, group, rfl, _, listed, inside, rfl⟩
    · exact memory.webhook same mem
    · obtain ⟨d', held, key⟩ := held_before moved mem
      rw [Group.webhookID_step moved, ← memory.webhook before held]
      exact (congrArg (·.2.1) key).symm
    · obtain ⟨r, _, rfl, _, mine⟩ := row_of_start listed inside mem
      exact mine
  · intro i g y delivers
    rcases delivers_step h delivers with
      same | ⟨move, x, table, rfl, before, moved⟩ | ⟨_, _, group, rfl, _, listed, inside, rfl⟩
    · exact memory.sorted same
    · exact sorted_iff.mpr ((sorted_iff.mp (memory.sorted before)).sublist (Group.held_step moved))
    · rw [held_start inside]
      refine List.Pairwise.filter _ ?_
      rw [pairwise_map]
      exact listed.2
  · intro i g y d delivers mem
    rcases delivers_step h delivers with
      same | ⟨move, x, table, rfl, before, moved⟩ | ⟨_, _, group, rfl, _, listed, inside, rfl⟩
    · exact created_step h (memory.known same mem)
    · obtain ⟨d', held, key⟩ := held_before moved mem
      have id : d'.id = d.id := congrArg (·.1) key
      exact created_step h (id ▸ memory.known before held)
    · obtain ⟨r, row, rfl, _, _⟩ := row_of_start listed inside mem
      exact created_step h (sound.created r.id r row)
  · intro i g y d r' delivers mem found
    have change := row_change h d.id
    rw [found] at change
    rcases change_keeps change with ⟨r, row, _, same⟩ | ⟨fresh, _, _, _, _, _, rfl, _⟩
    · rw [same]
      rcases delivers_step h delivers with
        old | ⟨move, x, table, rfl, before, moved⟩ | ⟨_, _, group, rfl, _, listed, inside, rfl⟩
      · exact memory.agrees old mem row
      · obtain ⟨d', held, key⟩ := held_before moved mem
        have id : d'.id = d.id := congrArg (·.1) key
        exact (memory.agrees before held (id ▸ row)).trans (congrArg (·.2.2.1) key)
      · obtain ⟨r0, row0, rfl, _, _⟩ := row_of_start listed inside mem
        cases row.symm.trans row0
        rfl
    · rcases delivers_step h delivers with
        old | ⟨move, x, table, other, _, _⟩ | ⟨_, _, _, other, _⟩
      · -- a notification just created is in nobody's hands
        exact absurd (memory.known old mem) fresh
      · cases other
      · cases other
  · intro i groups worker
    rcases worker_step h worker with same | step
    · exact memory.distinct same
    · cases step with
      | list =>
        rw [map_map]
        exact (grouped_bySubscription _).once
      | group _ _ _ _ _ _ delivering found moved =>
        exact nodup_set (memory.distinct delivering) found (Group.webhookID_step moved)

/-! ### Batches that keep apart -/

def Holds (s : Service) (i : Nat) (webhookID : String) : Prop :=
  (∃ token id r, s.workers[i]? = some (.claimed token) ∧ s.table.lookup id = some r ∧
    r.claimToken = some token ∧ r.webhookID = webhookID) ∨
  ∃ g x, s.Delivers i g x ∧ x.webhookID = webhookID ∧ x.phase.isFinished = false

theorem inHand_of_holds (holds : s.Holds i webhookID) :
    ∃ w ∈ s.workers, w.inHand s.table webhookID = true := by
  rcases holds with
    ⟨token, id, r, worker, row, has, webhook⟩ | ⟨g, x, ⟨groups, worker, found⟩, webhook, open_⟩
  · refine ⟨_, mem_of_getElem? worker, any_eq_true.mpr ⟨r, mem_of_lookup row, ?_⟩⟩
    simp [has, webhook]
  · refine ⟨_, mem_of_getElem? worker,
      any_eq_true.mpr ⟨x, mem_of_getElem? found, ?_⟩⟩
    simp [webhook, open_]

/-- A notification that is owed and that nobody has tried yet. -/
structure Untried (s : Service) (webhookID : String) (r : DeliveryRow) : Prop where
  row : s.table.lookup r.id = some r
  webhook : r.webhookID = webhookID
  owed : r.status.isTerminal = false
  untried : r.id ∉ s.attempted

/-- A claim finds nobody with notifications in hand of a subscription for which something is due,
and what is older and untried is due as well, and not locked. A new notification: none was created
after it. -/
def InTurn (s : Service) : Label → Prop
  | .create _ _ _ _ _ now =>
    (∀ r ∈ s.table.rows, r.createdAt ≤ now) ∧
      ∀ w ∈ s.workers, ∀ x ∈ w.groups, ∀ d ∈ x.held, d.createdAt ≤ now
  | .claimUpdate i _ locked =>
    match s.workers[i]? with
    | some (.stamped now _) => ∀ due ∈ s.due now,
      (∀ w ∈ s.workers, w.inHand s.table due.webhookID = false) ∧
      ∀ r ∈ s.table.rows, r.webhookID = due.webhookID → r.status.isTerminal = false →
        r.id ∉ s.attempted → r.createdAt < due.createdAt → isDue now r = true ∧ r.id ∉ locked
    | _ => True
  | _ => True

instance (s : Service) (label : Label) : Decidable (s.InTurn label) := by
  cases label <;> dsimp only [InTurn] <;> (try split) <;> infer_instance

section
variable {due : DeliveryRow} (inTurn : s.InTurn (.claimUpdate i answer locked))
  (stamped : s.workers[i]? = some (.stamped now token)) (mem : due ∈ s.due now)
include inTurn stamped mem

theorem InTurn.free (j : Nat) : ¬ s.Holds j due.webhookID := by
  intro holds
  simp only [InTurn, stamped] at inTurn
  obtain ⟨w, worker, inHand⟩ := inHand_of_holds holds
  cases ((inTurn due mem).1 w worker).symm.trans inHand

theorem InTurn.older (untried : s.Untried due.webhookID r) (older : r.createdAt < due.createdAt) :
    isDue now r = true ∧ r.id ∉ locked := by
  simp only [InTurn, stamped] at inTurn
  exact (inTurn due mem).2 r (mem_of_lookup untried.row) untried.webhook untried.owed
    untried.untried older

end

/-- The untried notifications of a subscription are in the hands of the one batch that has
notifications of it, or come after what that batch has. -/
structure Apart (s : Service) : Prop where
  exclusive : ∀ {i j : Nat} {webhookID : String}, s.Holds i webhookID → s.Holds j webhookID → i = j
  covered : ∀ {i g : Nat} {x : Group} {r : DeliveryRow}, s.Delivers i g x →
    x.phase.isActive = true → s.Untried x.webhookID r →
    (∃ d ∈ x.waiting, d.id = r.id) ∨ ∀ d ∈ x.held, d.createdAt ≤ r.createdAt
  claimed : ∀ {i : Nat} {token id : String} {mine r : DeliveryRow},
    s.workers[i]? = some (.claimed token) → s.table.lookup id = some mine →
    mine.claimToken = some token → s.Untried mine.webhookID r →
    r.claimToken = some token ∨ mine.createdAt ≤ r.createdAt

theorem Untried.before (untried : t.Untried webhookID r') (sound : s.Sound)
    (h : s.step config label = some t) :
    (∃ r, s.Untried webhookID r ∧ r.id = r'.id ∧ r.createdAt = r'.createdAt) ∨
      ∃ tenantID event payload, label = .create r'.id tenantID webhookID event payload r'.createdAt := by
  have change := row_change h r'.id
  rw [untried.row] at change
  rcases change_keeps change with
    ⟨r, row, webhook, created⟩ | ⟨_, tenantID, other, event, payload, now, taken, same⟩
  · have id : r.id = r'.id := (lookup_iff.mp row).2
    refine .inl ⟨r, ⟨id ▸ row, webhook.symm.trans untried.webhook, ?_, ?_⟩, id, created.symm⟩
    · by_contra finished
      rw [row] at change
      rcases final_step (sound.rows _ r row) (Bool.not_eq_false _ ▸ finished) change with same | gone
      · cases same
        exact finished untried.owed
      · cases gone
    · exact fun tried => untried.untried (id ▸ (tokens_step h).2 tried)
  · have webhook := untried.webhook
    rw [same] at webhook taken ⊢
    cases webhook
    exact .inr ⟨tenantID, event, payload, taken⟩

theorem claimed_before (tokens : s.Tokens) (h : s.step config label = some t)
    (worker : s.workers[i]? = some (.claimed token)) (row : t.table.lookup id = some r')
    (has : r'.claimToken = some token) :
    ∃ r, s.table.lookup id = some r ∧ r.claimToken = some token ∧ r.webhookID = r'.webhookID ∧
      r.createdAt = r'.createdAt := by
  have change := row_change h id
  rw [row] at change
  generalize before : s.table.lookup id = old at change
  cases change with
  | same => exact ⟨r', rfl, has, rfl, rfl⟩
  | created => cases has
  | claimed _ _ _ _ _ _ _ _ stamped =>
    cases has
    cases tokens.own stamped worker rfl rfl
    cases stamped.symm.trans worker
  | recorded => cases has
  | deferred r => exact ⟨r, rfl, has, rfl, rfl⟩

/-- A worker comes by notifications of a subscription only through a claim that finds some
due. -/
theorem Holds.before (holds : t.Holds i webhookID) (tokens : s.Tokens)
    (h : s.step config label = some t) :
    s.Holds i webhookID ∨ ∃ answer locked now token r, label = .claimUpdate i answer locked ∧
      s.workers[i]? = some (.stamped now token) ∧ r ∈ s.due now ∧ r.webhookID = webhookID := by
  rcases holds with ⟨token, id, r', worker, row, has, webhook⟩ | ⟨g, y, delivers, webhook, open_⟩
  · rcases worker_step h worker with same | step
    · obtain ⟨r, before, had, same', _⟩ := claimed_before tokens h same row has
      exact .inl (.inl ⟨token, id, r, same, before, had, same'.trans webhook⟩)
    · cases step with
      | claim answer locked now token stamped =>
        have change := row_change h id
        rw [row] at change
        -- no row had the token before the claim
        have none_ : ∀ r, s.table.lookup id = some r → r.claimToken ≠ some token :=
          fun r before had => (tokens.rows before had).2 stamped
        generalize before : s.table.lookup id = old at change none_
        cases change with
        | same => exact absurd has (none_ r' rfl)
        | created => cases has
        | claimed r _ _ _ _ _ _ taken stamped' due =>
          cases has
          cases taken
          cases stamped.symm.trans stamped'
          exact .inr ⟨answer, locked, now, _, r, rfl, stamped,
            mem_selectWhere.mpr ⟨mem_of_lookup before, due⟩, webhook⟩
        | recorded => cases has
        | deferred r => exact absurd has (none_ r rfl)
  · rcases delivers_step h delivers with
      same | ⟨move, x, table, rfl, before, moved⟩ | ⟨_, token, group, rfl, claimed, listed, inside, rfl⟩
    · exact .inl (.inr ⟨g, y, same, webhook, open_⟩)
    · exact .inl (.inr ⟨g, x, before, (Group.webhookID_step moved).symm.trans webhook,
        (Group.active_step moved).1⟩)
    · obtain ⟨d, mem⟩ := exists_mem_of_ne_nil _
        ((grouped_bySubscription _).nonempty group inside)
      obtain ⟨r, row, _, had, mine⟩ := row_of_start listed inside (d := d) mem
      exact .inl (.inl ⟨token, r.id, r, claimed, row, had, mine.trans webhook⟩)

theorem Apart.exclusive_step (apart : s.Apart) (tokens : s.Tokens) (inTurn : s.InTurn label)
    (h : s.step config label = some t) (mine : t.Holds i webhookID) (other : t.Holds j webhookID) :
    i = j := by
  rcases mine.before tokens h with held | ⟨answer, locked, now, token, r, rfl, stamped, due, rfl⟩
  · rcases other.before tokens h with held' | ⟨answer, locked, now, token, r, rfl, stamped, due, rfl⟩
    · exact apart.exclusive held held'
    · exact absurd held (inTurn.free stamped due i)
  · rcases other.before tokens h with held' | ⟨_, _, _, _, _, same, _⟩
    · exact absurd held' (inTurn.free stamped due j)
    cases same
    rfl

theorem Apart.covered_step (apart : s.Apart) (sound : s.Sound) (inTurn : s.InTurn label)
    (h : s.step config label = some t) (delivers : t.Delivers i g y)
    (active : y.phase.isActive = true) (untried : t.Untried y.webhookID r') :
    (∃ d ∈ y.waiting, d.id = r'.id) ∨ ∀ d ∈ y.held, d.createdAt ≤ r'.createdAt := by
  rcases delivers_step h delivers with
    same | ⟨move, x, table, rfl, before, moved⟩ | ⟨_, token, group, rfl, claimed, listed, inside, rfl⟩
  · rcases untried.before sound h with ⟨r, old, id, created⟩ | ⟨_, _, _, rfl⟩
    · rw [← id, ← created]
      exact apart.covered same active old
    · obtain ⟨groups, worker, found⟩ := same
      -- a notification created now is younger than all that is held
      exact .inr (inTurn.2 _ (mem_of_getElem? worker) y (mem_of_getElem? found))
  · rcases untried.before sound h with ⟨r, old, id, created⟩ | ⟨_, _, _, other⟩
    · obtain ⟨wasActive, kept⟩ := (Group.active_step moved).2 active
      rw [Group.webhookID_step moved] at old
      rcases apart.covered before wasActive old with ⟨d, mem, same⟩ | later
      · rcases kept d mem with tried | ⟨d', stays, same'⟩
        · -- the group has come to it
          refine absurd ?_ untried.untried
          cases step_cases h with
          | group _ _ _ _ _ _ _ worker found =>
            obtain ⟨groups', worker', found'⟩ := delivers
            cases (getElem?_set_here _ worker).symm.trans worker'
            cases (getElem?_set_here _ found).symm.trans found'
            exact mem_append_right _ (id ▸ same ▸ tried)
        · exact .inl ⟨d', stays, same'.trans (same.trans id)⟩
      · refine .inr fun d mem => ?_
        obtain ⟨d', held, key⟩ := held_before moved mem
        have same : d'.createdAt = d.createdAt := congrArg (·.2.2.1) key
        exact same ▸ created ▸ later d' held
    · cases other
  · rcases untried.before sound h with ⟨r, old, id, created⟩ | ⟨_, _, _, other⟩
    · by_cases mine : r.claimToken = some token
      · -- it was claimed with the others, so it was read with them
        refine .inl ⟨r.toWebhookDelivery, ?_, id⟩
        change r.toWebhookDelivery ∈ group.2
        rw [(grouped_bySubscription _).group group inside]
        have read := listed.1.mem_iff.mpr
          (mem_selectWhere.mpr ⟨mem_of_lookup old.row, decide_eq_true mine⟩)
        exact mem_filter.mpr ⟨mem_map_of_mem read, decide_eq_true old.webhook⟩
      · refine .inr fun d mem => ?_
        obtain ⟨first, row, rfl, has, webhook⟩ := row_of_start listed inside mem
        have order := apart.claimed claimed row has
          (webhook.symm ▸ old : s.Untried first.webhookID r)
        exact created ▸ order.resolve_left mine
    · cases other

theorem saves_held (saves : x.saves = some d) : ∃ d' ∈ x.held, d'.claimToken = d.claimToken := by
  rw [Group.saves] at saves
  split at saves
  next saving =>
    cases saves
    exact ⟨d, by simp [Group.held, saving, current], rfl⟩
  next e rest releasing queue =>
    cases saves
    exact ⟨e, by simp [Group.held, queue], rfl⟩
  · cases saves

theorem token_kept (tokens : s.Tokens) (inTurn : s.InTurn label)
    (h : s.step config label = some t) (worker : s.workers[i]? = some (.claimed token))
    (row : s.table.lookup id = some r) (has : r.claimToken = some token)
    (after : t.table.lookup id = some r') : r'.claimToken = some token := by
  have change := row_change h id
  rw [row, after] at change
  cases change with
  | same => exact has
  | claimed r _ _ _ _ _ _ taken stamped due =>
    -- a claim that found the row due would find it in hand
    subst taken
    have free := inTurn.free stamped
      (mem_selectWhere.mpr ⟨mem_of_lookup row, due⟩) i
    exact absurd (.inl ⟨token, id, r, worker, row, has, rfl⟩) free
  | recorded _ _ _ _ groups _ _ _ _ _ delivering found saves _ own held =>
    cases has.symm.trans held
    obtain ⟨d', inside, same⟩ := saves_held saves
    exact absurd rfl
      ((tokens.memory ⟨groups, delivering, found⟩ inside (same.trans own)).2 worker)
  | deferred => exact has

theorem claim_takes {ids : List String} (token : String) (until_ : Time)
    (row : table.lookup r.id = some r) (named : r.id ∈ ids) (due : isDue now r = true) :
    (Queue.claimUpdate table ids token until_ now).lookup r.id = some (r.claim token until_ now) := by
  refine (lookup_updateWhere ..).trans ?_
  rw [row]
  simp [named, due]

theorem mem_claimIDs {perSubscription : Nat} (ranked : Ranked (s.due now) perSubscription answer)
    (row : s.table.lookup r.id = some r) :
    r.id ∈ claimIDs config answer locked ↔ r ∈ answer.take config.batchSize ∧ r.id ∉ locked := by
  simp only [claimIDs, mem_filter, decide_eq_true_eq, mem_map]
  refine and_congr_left fun _ => ⟨?_, fun inside => ⟨r, inside, rfl⟩⟩
  rintro ⟨x, inside, same⟩
  have mem := (mem_selectWhere.mp (mem_of_mem_filter
    (ranked.1.mem_iff.mp (mem_of_mem_take inside)))).1
  have found : s.table.lookup r.id = some x := lookup_iff.mpr ⟨mem, same⟩
  cases row.symm.trans found
  exact inside

/-- A claim leaves untried nothing that is older than what it takes. -/
theorem claim_in_turn {mine' : DeliveryRow} (tokens : s.Tokens)
    (inTurn : s.InTurn (.claimUpdate i answer locked))
    (h : s.step config (.claimUpdate i answer locked) = some t)
    (stamped : s.workers[i]? = some (.stamped now token)) (row : t.table.lookup id = some mine')
    (has : mine'.claimToken = some token) (untried : t.Untried mine'.webhookID r') :
    r'.claimToken = some token ∨ mine'.createdAt ≤ r'.createdAt := by
  cases step_cases h with
  | claimUpdate _ _ _ _ _ stamped' ranked =>
    cases stamped.symm.trans stamped'
    refine or_iff_not_imp_left.mpr fun other => Nat.le_of_not_lt fun older => other ?_
    rcases Queue.lookup_claimUpdate (claimIDs config answer locked) token (now + config.lease) now id
      with same | ⟨mine, found, named, due, after⟩
    · exact absurd stamped (tokens.rows (same.symm.trans row) has).2
    · cases row.symm.trans after
      rcases Queue.lookup_claimUpdate (claimIDs config answer locked) token (now + config.lease) now
        r'.id with same | ⟨r, _, _, _, after'⟩
      · have rowOf : s.table.lookup r'.id = some r' := same.symm.trans untried.row
        have mineOf : s.table.lookup mine.id = some mine :=
          (lookup_iff.mp found).2.symm ▸ found
        have dueOf : mine ∈ s.due now := mem_selectWhere.mpr ⟨mem_of_lookup found, due⟩
        -- the older notification is due, and ranked before: the claim takes it too
        obtain ⟨ready, unlocked⟩ := inTurn.older stamped dueOf
          ⟨rowOf, untried.webhook, untried.owed, untried.untried⟩ older
        have taken := ranked.older_taken
          (mem_selectWhere.mpr ⟨mem_of_lookup rowOf, ready⟩)
          ((mem_claimIDs ranked mineOf).mp named).1 untried.webhook older
        have claimed := claim_takes token (now + config.lease) rowOf
          ((mem_claimIDs ranked rowOf).mpr ⟨taken, unlocked⟩) ready
        rw [Option.some.inj (untried.row.symm.trans claimed)]
        rfl
      · cases untried.row.symm.trans after'
        rfl

section
variable (apart : s.Apart) (sound : s.Sound) (tokens : s.Tokens) (inTurn : s.InTurn label)
  (h : s.step config label = some t)
include apart sound tokens inTurn h

theorem Apart.claimed_step {mine' : DeliveryRow} (worker : t.workers[i]? = some (.claimed token))
    (row : t.table.lookup id = some mine') (has : mine'.claimToken = some token)
    (untried : t.Untried mine'.webhookID r') :
    r'.claimToken = some token ∨ mine'.createdAt ≤ r'.createdAt := by
  rcases worker_step h worker with same | step
  · obtain ⟨mine, before, had, webhook, createdAt⟩ := claimed_before tokens h same row has
    rcases untried.before sound h with ⟨r, old, sameID, created⟩ | ⟨_, _, _, rfl⟩
    · rcases apart.claimed same before had (webhook.symm ▸ old) with claimed | later
      · exact .inl (token_kept tokens inTurn h same (sameID ▸ old.row) claimed untried.row)
      · exact .inr (createdAt ▸ created ▸ later)
    · exact .inr (createdAt ▸ inTurn.1 mine (mem_of_lookup before))
  · cases step with
    | claim _ _ _ _ stamped => exact claim_in_turn tokens inTurn h stamped row has untried

theorem Apart.step : t.Apart :=
  ⟨apart.exclusive_step tokens inTurn h, apart.covered_step sound inTurn h,
    apart.claimed_step sound tokens inTurn h⟩

end

/-! ### Order -/

def Posting (s : Service) (i g : Nat) (d : WebhookDelivery) : Prop :=
  ∃ x, s.Delivers i g x ∧ x.phase = .posting d

structure Ordered (s : Service) : Prop where
  /-- No two notifications of a subscription are being posted. -/
  alone : ∀ i g d i' g' d', s.Posting i g d → s.Posting i' g' d' → d.webhookID = d'.webhookID →
    i = i' ∧ g = g'
  /-- Of the older notifications of the subscription, those still owed have had an attempt. -/
  inOrder : ∀ i g d r, s.Posting i g d → r ∈ s.table.rows → r.webhookID = d.webhookID →
    r.createdAt < d.createdAt → r.status.isTerminal = false → r.id ∈ s.attempted

theorem Apart.ordered (apart : s.Apart) (memory : s.Memory) : s.Ordered := by
  have current : ∀ {x : Group} {d : WebhookDelivery}, x.phase = .posting d → d ∈ x.held :=
    fun posting => by simp [Group.held, posting, current]
  refine ⟨?_, ?_⟩
  · rintro i g d i' g' d' ⟨x, delivers, posting⟩ ⟨x', delivers', posting'⟩ same
    have webhook := memory.webhook delivers (current posting)
    have webhook' := memory.webhook delivers' (current posting')
    have holds : s.Holds i d.webhookID :=
      .inr ⟨g, x, delivers, webhook.symm, by rw [posting]; rfl⟩
    have holds' : s.Holds i' d.webhookID :=
      .inr ⟨g', x', delivers', webhook'.symm.trans same.symm, by rw [posting']; rfl⟩
    -- one worker at most holds a subscription
    cases apart.exclusive holds holds'
    refine ⟨rfl, ?_⟩
    obtain ⟨groups, worker, found⟩ := delivers
    obtain ⟨groups', worker', found'⟩ := delivers'
    cases worker.symm.trans worker'
    exact position_unique (memory.distinct worker) found found'
      (webhook.symm.trans (same.trans webhook'))
  · rintro i g d r ⟨x, delivers, posting⟩ mem webhook older owed
    by_contra untried
    have row : s.table.lookup r.id = some r := lookup_iff.mpr ⟨mem, rfl⟩
    have mine := memory.webhook delivers (current posting)
    rcases apart.covered delivers (by rw [posting]; rfl)
      ⟨row, webhook.trans mine, owed, untried⟩ with ⟨d', later, same⟩ | after
    · -- the group would come to it later, so it is not older
      have held : x.held = d :: x.waiting := by
        simp [Group.held, Group.waiting, posting, GroupPhase.current]
      have sorted := memory.sorted delivers
      rw [held, pairwise_cons] at sorted
      have agrees := memory.agrees delivers (d := d') (by rw [held]; exact mem_cons_of_mem _ later)
        (same ▸ row)
      exact Nat.not_le_of_lt (agrees ▸ older) (sorted.1 d' later)
    · exact absurd (after d (current posting)) (Nat.not_le_of_lt older)

theorem init_worker (worker : (init n).workers[i]? = some w) : w = .idle :=
  eq_of_mem_replicate (mem_of_getElem? worker)

theorem init_delivers {p : Prop} (delivers : (init n).Delivers i g x) : p := by
  obtain ⟨groups, worker, _⟩ := delivers
  cases init_worker worker

theorem tokens_init (n : Nat) : (init n).Tokens where
  drawn := fun worker has => by
    cases init_worker worker
    cases has
  own := fun worker _ has => by
    cases init_worker worker
    cases has
  memory := init_delivers
  rows := nofun

theorem memory_init (n : Nat) : (init n).Memory where
  webhook := init_delivers
  sorted := init_delivers
  known := init_delivers
  agrees := init_delivers
  distinct := fun worker => nomatch init_worker worker

theorem apart_init (n : Nat) : (init n).Apart where
  exclusive := by
    rintro i j webhookID (⟨_, _, _, worker, _⟩ | ⟨_, _, delivers, _⟩)
    · cases init_worker worker
    · exact init_delivers delivers
  covered := init_delivers
  claimed := fun worker => nomatch init_worker worker

/-- In every run whose claims find the queue in order, a subscription's notifications are posted
one at a time and the oldest first. -/
theorem ordered_of_inTurn (config : Config) (n : Nat) {labels : List Label} {s : Service}
    (inTurn : AllSteps (step config) InTurn (init n) labels)
    (run : exec (step config) (init n) labels = some s) : s.Ordered := by
  have all : s.Sound ∧ s.Tokens ∧ s.Memory ∧ s.Apart :=
    invariant_along (step config) InTurn (fun s => s.Sound ∧ s.Tokens ∧ s.Memory ∧ s.Apart)
      (fun s label t inTurn ⟨sound, tokens, memory, apart⟩ h =>
        ⟨sound.step h, tokens.step h, memory.step sound h, apart.step sound tokens inTurn h⟩)
      (init n) s labels ⟨sound_init n, tokens_init n, memory_init n, apart_init n⟩ inTurn run
  exact all.2.2.2.ordered all.2.2.1

/-! ### Two batches on one subscription -/

def posting? (s : Service) (i : Nat) : Option WebhookDelivery := do
  let w ← s.workers[i]?
  let x ← w.groups[0]?
  match x.phase with
  | .posting d => some d
  | _ => none

theorem posting_of (found : s.posting? i = some d) : s.Posting i 0 d := by
  simp only [posting?, Option.bind_eq_bind, Option.bind_eq_some_iff] at found
  obtain ⟨w, worker, x, group, posting⟩ := found
  split at posting <;> cases posting
  next phase =>
    cases w with
    | delivering groups => exact ⟨x, ⟨groups, worker, group⟩, phase⟩
    | _ => cases group

def rowAt (id : String) (now : Time) : DeliveryRow := .new id "t" "w" "MAIL_SENT" "payload" now

/-- Worker `i` claims the rows, which the queue has like this, and begins to post the first. -/
def beginBatch (i : Nat) (now : Time) (token : String) (rows : List DeliveryRow) : List Label :=
  [.claimStart i now token, .claimUpdate i rows [],
    .claimList i (rows.map (DeliveryRow.claim token (now + 2 * minute) now)),
    .group i 0 (.next false now), .group i 0 (.subscription .active now)]

def createAt (id : String) (now : Time) : Label := .create id "t" "w" "MAIL_SENT" "payload" now

def unanswered (now : Time) : List Label :=
  [.group 0 0 (.answer (.failed "timeout") now), .group 0 0 (.save true now)]

/-- A worker posts the two notifications of a subscription one after the other. -/
def oneBatch : List Label :=
  [createAt "n1" 0, createAt "n2" 1] ++ beginBatch 0 2 "a" [rowAt "n1" 0, rowAt "n2" 1] ++
    unanswered 3 ++ [.group 0 0 (.next false 3), .group 0 0 (.subscription .active 3)]

theorem ordered_oneBatch : ∃ s d, exec (step defaultConfig) (init 2) oneBatch = some s ∧
      s.Posting 0 0 d ∧ d.id = "n2" ∧ s.attempted.contains "n1" = true ∧ s.Ordered := by
  have runs : ∃ s ∈ exec (step defaultConfig) (init 2) oneBatch, ∃ d ∈ s.posting? 0,
      d.id = "n2" ∧ s.attempted.contains "n1" = true := by decide
  have inTurn : AllSteps (step defaultConfig) InTurn (init 2) oneBatch := by decide
  obtain ⟨s, run, d, posting, second, tried⟩ := runs
  exact ⟨s, d, run, posting_of posting, second, tried, ordered_of_inTurn defaultConfig 2 inTurn run⟩

/-- While one worker posts a subscription's first notification, another one posts its second. -/
def twoBatches : List Label :=
  createAt "n1" 0 :: beginBatch 0 1 "a" [rowAt "n1" 0] ++
    createAt "n2" 2 :: beginBatch 1 3 "b" [rowAt "n2" 2]

/-- A worker finds the endpoint down and puts the third notification off, and then posts the fourth,
created after that. -/
def backOffThenPost : List Label :=
  [createAt "n1" 0, createAt "n2" 1, createAt "n3" 2] ++
    beginBatch 0 3 "a" [rowAt "n1" 0, rowAt "n2" 1, rowAt "n3" 2] ++ unanswered 3 ++
    [.group 0 0 (.next false 3), .group 0 0 (.subscription .active 3)] ++ unanswered 3 ++
    [.group 0 0 (.next false 4), .group 0 0 (.release true 4), .group 0 0 (.release true 4),
      .group 0 0 (.deferRest true 4), .endBatch 0, createAt "n4" 5] ++
    beginBatch 0 6 "b" [rowAt "n4" 5]

theorem not_ordered :
    (∃ s d d', exec (step defaultConfig) (init 2) twoBatches = some s ∧ s.Posting 0 0 d ∧
      s.Posting 1 0 d' ∧ d.webhookID = d'.webhookID ∧ ¬ s.Ordered) ∧
    ∃ s d, exec (step defaultConfig) (init 1) backOffThenPost = some s ∧ s.Posting 0 0 d ∧
      d.id = "n4" ∧ "n3" ∉ s.attempted ∧ ¬ s.Ordered := by
  have both : ∃ s ∈ exec (step defaultConfig) (init 2) twoBatches,
      ∃ d ∈ s.posting? 0, ∃ d' ∈ s.posting? 1, d.webhookID = d'.webhookID := by decide
  have late : ∃ s ∈ exec (step defaultConfig) (init 1) backOffThenPost,
      ∃ d ∈ s.posting? 0, d.id = "n4" ∧ "n3" ∉ s.attempted ∧
        ∃ r ∈ s.table.rows, r.id = "n3" ∧ r.webhookID = d.webhookID ∧
          r.createdAt < d.createdAt ∧ r.status.isTerminal = false := by decide
  refine ⟨?_, ?_⟩
  · obtain ⟨s, run, d, first, d', second, same⟩ := both
    refine ⟨s, d, d', run, posting_of first, posting_of second, same, fun ordered => ?_⟩
    cases (ordered.alone 0 0 d 1 0 d' (posting_of first) (posting_of second) same).1
  · obtain ⟨s, run, d, found, named, untried, r, row, id, webhook, older, owed⟩ := late
    refine ⟨s, d, run, posting_of found, named, untried, fun ordered => untried ?_⟩
    exact id ▸ ordered.inOrder 0 0 d r (posting_of found) row webhook older owed

end Service

end Panmail.Webhooks
