import Panmail.Delivery.Passes
import Panmail.Templates.Gateway

/-!
# What the rules saw and what is sent

A filter rule is evaluated against the content rendered at admission, and a recipient is sent what
the delivery renders anew. The two are the same as long as the template the message names is left
alone while anything still depends on it. Nothing in the gateway sees to that.
-/
namespace Panmail.Templates

open Caches Runs Tables Outbox Delivery List

variable (P : Platform)

/-! ### What depends on a template -/

def uses (e : OutboxEmail) (tenantID id : String) : Bool :=
  e.tenantID = tenantID && (P.unmarshalRequest e.request).any fun req => req.templateID = id

/-- A queued message, a pass that may still send, a call in progress, or a cache that would still
return it uses the template. -/
def Gateway.InUse (g : Gateway) (tenantID id : String) : Prop :=
  (∃ r ∈ g.world.outbox.rows, uses P r.toOutboxEmail tenantID id = true) ∨
    (∃ p ∈ g.world.passes, p.maySend = true ∧ uses P p.email tenantID id = true) ∨
    (∃ c ∈ g.calls, c.phase ≠ .done ∧ c.tenantID = tenantID ∧ c.req.templateID = id) ∨
    ∃ node, (g.caches node).Live g.world.clock (cacheKey tenantID id)

/-- A template that is in use is neither edited nor deleted, and the renderer gives one output
for one stored request, whenever it is called. -/
def Undisturbed (engine : String → Renderer) (g : Gateway) : GatewayAction → Prop
  | .updateTemplate tenantID id _ => ¬g.InUse P tenantID id
  | .deleteTemplate tenantID id => ¬g.InUse P tenantID id
  | .queue _ render _ email => render = engine email.request
  | .send j input => ∀ c email, g.calls[j]? = some c → c.email = some email →
      input.render = engine email.request
  | _ => True

/-! ### Rendering -/

section
variable {req : SendEmailRequest} {answer : Except String (Option Template)} {render : Renderer}
  {content : Content}

theorem renderTemplate_plain (plain : req.templateID = "") :
    renderTemplate req answer render = .ok req.plainContent := by
  simp only [renderTemplate, plain, if_true]

theorem renderTemplate_found (named : req.templateID ≠ "")
    (rendered : renderTemplate req answer render = .ok content) : ∃ tpl, answer = .ok (some tpl) := by
  simp only [renderTemplate, named, if_false] at rendered
  split at rendered
  · cases rendered
  · cases rendered
  next tpl => exact ⟨tpl, rfl⟩

theorem renderTemplate_current {row : Option Template}
    (current : ∀ tpl, answer = .ok (some tpl) → row = some tpl)
    (rendered : renderTemplate req answer render = .ok content) :
    renderTemplate req (.ok row) render = .ok content := by
  by_cases plain : req.templateID = ""
  · rw [renderTemplate_plain plain] at rendered ⊢
    exact rendered
  · obtain ⟨tpl, rfl⟩ := renderTemplate_found plain rendered
    rw [current tpl rfl]
    exact rendered

end

/-! ### The invariant -/

def Current (templates : String → String → Option Template) (key : String) (tpl : Template) : Prop :=
  ∀ tenantID id, ':' ∉ tenantID.toList → cacheKey tenantID id = key →
    templates tenantID id = some tpl

/-- Rendered from the table as it is, the message is what its rules saw. -/
def Promised (engine : String → Renderer) (templates : String → String → Option Template)
    (screened : List (String × Content)) (e : OutboxEmail) : Prop :=
  ∃ req content, P.unmarshalRequest e.request = some req ∧ (e.id, content) ∈ screened ∧
    renderTemplate req (.ok (templates e.tenantID req.templateID)) (engine e.request) = .ok content

/-- A template a call has in hand is the one in the table. -/
def Looked (templates : String → String → Option Template) (c : Call) : Prop :=
  ∀ tpl, c.phase = .read tpl ∨ c.phase = .answered (.ok (some tpl)) →
    templates c.tenantID c.req.templateID = some tpl

/-- A delivery in progress is of a message as it was queued. -/
def Errand (engine : String → Renderer) (templates : String → String → Option Template)
    (screened : List (String × Content)) (c : Call) : Prop :=
  ∀ e, c.email = some e → c.phase ≠ .done →
    c.tenantID = e.tenantID ∧ P.unmarshalRequest e.request = some c.req ∧
      Promised P engine templates screened e

structure Kept (engine : String → Renderer) (g : Gateway) : Prop where
  cached : ∀ node, (g.caches node).Coherent g.world.clock (Current g.templates)
  looked : ∀ c ∈ g.calls, Looked g.templates c
  errands : ∀ c ∈ g.calls, Errand P engine g.templates g.screened c
  rows : ∀ {id r}, g.world.outbox.lookup id = some r →
    Promised P engine g.templates g.screened r.toOutboxEmail
  passes : ∀ p ∈ g.world.passes, p.maySend = true →
    Promised P engine g.templates g.screened p.email
  once : (g.screened.map Prod.fst).Nodup
  sent : ∀ d ∈ g.sent, d ∈ g.screened

section
variable {P} {engine : String → Renderer} {g : Gateway} {lease : Time}

theorem kept_init : Kept P engine Gateway.init where
  cached := fun _ => coherent_empty
  looked := fun _ mem => nomatch mem
  errands := fun _ mem => nomatch mem
  rows := nofun
  passes := fun _ mem => nomatch mem
  once := nodup_nil
  sent := nofun

/-! ### Templates are written -/

variable {e : OutboxEmail} {tenantID id : String} {req : SendEmailRequest}

theorem uses_iff (reads : P.unmarshalRequest e.request = some req) :
    uses P e tenantID id = true ↔ e.tenantID = tenantID ∧ req.templateID = id := by
  simp [uses, reads]

variable {templates : String → String → Option Template} {screened : List (String × Content)}
  {tpl : Option Template} {a : Outbox.Action}

/-- A write to a template that a message does not use, or that is not there, does not change
what the message renders to. -/
theorem Promised.write (promised : Promised P engine templates screened e)
    (free : uses P e tenantID id = false ∨ templates tenantID id = none) :
    Promised P engine (writeTemplate templates tenantID id tpl) screened e := by
  obtain ⟨req, content, reads, listed, renders⟩ := promised
  refine ⟨req, content, reads, listed, ?_⟩
  by_cases here : e.tenantID = tenantID ∧ req.templateID = id
  · rcases free with unused | absent
    · rw [(uses_iff reads).mpr here] at unused
      cases unused
    · -- nothing was rendered from a template that is not there
      have plain : req.templateID = "" := by
        by_contra named
        obtain ⟨found, same⟩ := renderTemplate_found named renders
        rw [here.1, here.2, absent] at same
        cases same
      rw [renderTemplate_plain plain] at renders ⊢
      exact renders
  · rw [writeTemplate, if_neg here]
    exact renders

theorem cacheKey_inj {other otherID : String} (plain : ':' ∉ tenantID.toList)
    (plainToo : ':' ∉ other.toList) (same : cacheKey tenantID id = cacheKey other otherID) :
    tenantID = other ∧ id = otherID := by
  have chars : tenantID.toList ++ ':' :: id.toList = other.toList ++ ':' :: otherID.toList := by
    have lists := congrArg String.toList same
    simpa [cacheKey] using lists
  obtain ⟨tenants, ids⟩ := Text.append_separator_inj plain plainToo chars
  exact ⟨String.toList_injective tenants, String.toList_injective ids⟩

/-- A template that nothing uses, or that is not there yet, may be written. -/
theorem Kept.write (inv : Kept P engine g)
    (free : ¬g.InUse P tenantID id ∨ g.templates tenantID id = none) :
    Kept P engine { g with templates := writeTemplate g.templates tenantID id tpl } := by
  -- what is known to be in the table is not the row that is written
  have other {t i : String} {found : Template} (there : g.templates t i = some found)
      (used : t = tenantID ∧ i = id → g.InUse P tenantID id) :
      writeTemplate g.templates tenantID id tpl t i = some found := by
    rw [writeTemplate, if_neg]
    · exact there
    · intro here
      rcases free with unused | absent
      · exact unused (used here)
      · rw [here.1, here.2, absent] at there
        cases there
  have promised {e : OutboxEmail} (before : Promised P engine g.templates g.screened e)
      (used : uses P e tenantID id = true → g.InUse P tenantID id) :
      Promised P engine (writeTemplate g.templates tenantID id tpl) g.screened e := by
    apply before.write
    rcases free with unused | absent
    · exact .inl (Bool.eq_false_iff.mpr fun uses => unused (used uses))
    · exact .inr absent
  refine ⟨fun node => ?_, fun c mem found inHand => ?_, fun c mem e errand live => ?_,
    fun found => ?_, fun p mem sends => ?_, inv.once, inv.sent⟩
  · refine (inv.cached node).change fun key value live current t i plain named => ?_
    apply other (current t i plain named)
    rintro ⟨rfl, rfl⟩
    exact .inr (.inr (.inr ⟨node, named ▸ live⟩))
  · apply other (inv.looked c mem found inHand)
    rintro ⟨tenant, template⟩
    refine .inr (.inr (.inl ⟨c, mem, fun done => ?_, tenant, template⟩))
    rcases inHand with read | answered
    · cases done.symm.trans read
    · cases done.symm.trans answered
  · obtain ⟨tenant, reads, before⟩ := inv.errands c mem e errand live
    refine ⟨tenant, reads, promised before fun used => ?_⟩
    obtain ⟨owner, template⟩ := (uses_iff reads).mp used
    exact .inr (.inr (.inl ⟨c, mem, live, tenant.trans owner, template⟩))
  · apply promised (inv.rows found)
    intro used
    exact .inl ⟨_, Table.mem_of_lookup found, used⟩
  · apply promised (inv.passes p mem sends)
    intro used
    exact .inr (.inl ⟨p, mem, sends, used⟩)

/-! ### The outbox moves on -/

theorem Promised.same {e' : OutboxEmail}
    (promised : Promised P engine templates screened e) (id : e'.id = e.id)
    (tenant : e'.tenantID = e.tenantID) (request : e'.request = e.request) :
    Promised P engine templates screened e' := by
  rw [Promised, id, tenant, request]
  exact promised

theorem Kept.outbox (inv : Kept P engine g) {w : World} (other : ∀ email, a ≠ .create email)
    (h : g.world.step lease a = some w) : Kept P engine { g with world := w } := by
  refine ⟨fun node => (inv.cached node).later (clock_le h), inv.looked, inv.errands,
    fun found => ?_, ?_, inv.once, inv.sent⟩
  · obtain ⟨old, before, id, tenant, request⟩ := row_same h other found
    exact (inv.rows before).same id tenant request
  · cases passes_change h with
    | same _ passes | ticked _ _ _ passes =>
      rw [passes]
      exact inv.passes
    | listed _ _ _ _ passes =>
      rw [passes]
      intro p mem sends
      rcases mem_append.mp mem with old | new
      · exact inv.passes p old sends
      · obtain ⟨email, listed, rfl⟩ := mem_map.mp new
        obtain ⟨row, found, _, rfl⟩ := mem_listClaimed.mp listed
        exact inv.rows found
    | moved _ _ p _ _ _ found step passes =>
      rw [passes]
      refine forall_mem_set inv.passes fun sends => ?_
      obtain ⟨_, email, _⟩ := Pass.step_cases step
      rw [email]
      exact inv.passes p (mem_of_getElem? found) (Pass.maySend_of_step step sends)

/-! ### Calls move on -/

variable {c : Call} {answer : Except String (Option Template)}

theorem Looked.current (looked : Looked templates c)
    (phase : c.phase = .answered answer) (tpl : Template) (found : answer = .ok (some tpl)) :
    templates c.tenantID c.req.templateID = some tpl :=
  looked tpl (.inr (phase.trans (congrArg _ found)))

variable {j node : Nat} {phase : CallPhase} {caches : Nat → Cache String Template}
  {email : OutboxEmail} {t : Gateway}

theorem Kept.move (inv : Kept P engine g) (here : g.calls[j]? = some c) (live : c.phase ≠ .done)
    (looked : Looked g.templates { c with phase := phase })
    (cached : ∀ node, (caches node).Coherent g.world.clock (Current g.templates)) :
    Kept P engine { g.move j c phase with caches := caches } := by
  have mem : c ∈ g.calls := mem_of_getElem? here
  refine ⟨cached, forall_mem_set inv.looked looked, ?_, inv.rows, inv.passes, inv.once, inv.sent⟩
  refine forall_mem_set inv.errands ?_
  intro e errand _
  exact inv.errands c mem e errand live

theorem Kept.finish (inv : Kept P engine g) (c : Call) : Kept P engine (g.move j c .done) := by
  refine ⟨inv.cached, forall_mem_set inv.looked ?_, forall_mem_set inv.errands ?_, inv.rows,
    inv.passes, inv.once, inv.sent⟩
  · rintro tpl (read | answered)
    · cases read
    · cases answered
  · intro e _ live
    exact absurd rfl live

theorem Kept.begin (inv : Kept P engine g) {plain : ':' ∉ tenantID.toList}
    {email : Option OutboxEmail} (errand : ∀ e, email = some e → tenantID = e.tenantID ∧
      P.unmarshalRequest e.request = some req ∧ Promised P engine g.templates g.screened e) :
    Kept P engine { g with calls := g.calls ++ [Call.start node tenantID plain req email] } := by
  refine ⟨inv.cached, ?_, ?_, inv.rows, inv.passes, inv.once, inv.sent⟩
  · refine forall_mem_concat inv.looked ?_
    rintro tpl (started | started) <;>
      · simp only [Call.start] at started
        split at started <;> cases started
  · exact forall_mem_concat inv.errands fun e same _ => errand e same

/-! ### Messages are queued and sent -/

theorem Promised.more {d : String × Content} (promised : Promised P engine templates screened e) :
    Promised P engine templates (screened ++ [d]) e := by
  obtain ⟨req, content, reads, listed, renders⟩ := promised
  exact ⟨req, content, reads, mem_append_left _ listed, renders⟩

theorem Kept.queue (inv : Kept P engine g) {decision : Option FilterAction}
    (here : g.calls[j]? = some c) (phase : c.phase = .answered answer)
    (h : g.queue P lease j c answer (engine email.request) decision email = some t) :
    Kept P engine t := by
  have mem : c ∈ g.calls := mem_of_getElem? here
  simp only [Gateway.queue] at h
  split at h
  · cases h
    exact inv.finish c
  next content rendered =>
    split at h
    · cases h
      exact inv.finish c
    · obtain ⟨⟨tenant, reads, _, fresh⟩, queued⟩ := Option.ite_none_right_eq_some.mp h
      obtain ⟨world, created, rfl⟩ := Option.map_eq_some_iff.mp queued
      cases step_cases created with
      | create _ _ _ _ inserted =>
        have done := inv.finish (j := j) c
        refine ⟨done.cached, done.looked, fun d listed e errand live => ?_, ?_,
          fun p listed sends => (inv.passes p listed sends).more, ?_, ?_⟩
        · obtain ⟨owner, request, promised⟩ := done.errands d listed e errand live
          exact ⟨owner, request, promised.more⟩
        · -- the rows are those there were, and the new one
          intro id r found
          rw [Table.lookup_insert? inserted] at found
          split at found
          · cases found
            refine ⟨c.req, content, reads, mem_append_right _ mem_cons_self, ?_⟩
            have current := (inv.looked c mem).current phase
            rw [← tenant] at current
            exact renderTemplate_current current rendered
          · exact (inv.rows found).more
        · rw [map_append, nodup_append]
          refine ⟨inv.once, nodup_singleton _, ?_⟩
          rintro a old b new rfl
          cases mem_singleton.mp new
          exact fresh old
        · exact fun d listed => mem_append_left _ (inv.sent d listed)

theorem mem_copies {effects : List Effect} {content : Content} :
    content ∈ copies effects ↔ ∃ copy err, Effect.send copy err ∈ effects ∧
      (⟨copy.subject, copy.html, copy.text⟩ : Content) = content := by
  rw [copies, mem_filterMap]
  constructor
  · rintro ⟨x, mem, same⟩
    cases x with
    | send copy err =>
      cases same
      exact ⟨copy, err, mem, rfl⟩
    | event | suppressed => cases same
  · rintro ⟨copy, err, mem, same⟩
    exact ⟨.send copy err, mem, congrArg some same⟩

theorem Kept.send (inv : Kept P engine g) {input : SendInput} (here : g.calls[j]? = some c)
    (errand : c.email = some email) (phase : c.phase = .answered answer)
    (same : input.render = engine email.request) :
    Kept P engine (g.send P j c email answer input) := by
  have mem : c ∈ g.calls := mem_of_getElem? here
  have done := inv.finish (j := j) c
  refine ⟨done.cached, done.looked, done.errands, done.rows, done.passes, done.once, ?_⟩
  intro d listed
  rcases mem_append.mp listed with old | new
  · exact inv.sent d old
  · obtain ⟨content, copied, rfl⟩ := mem_map.mp new
    obtain ⟨copy, err, handed, rfl⟩ := mem_copies.mp copied
    obtain ⟨prep, found, _, _, content, _⟩ := mem_sendEmail_send P handed
    have live : c.phase ≠ .done := by simp [phase]
    obtain ⟨tenant, reads, req, seen, request, screened, renders⟩ :=
      inv.errands c mem email errand live
    cases reads.symm.trans request
    -- what the pass rendered is what the table gives, and so what the rules saw
    have rendered : renderTemplate c.req answer (engine email.request) = .ok prep.content := by
      rw [← same]
      exact found.content
    have current := (inv.looked c mem).current phase
    rw [tenant] at current
    cases (renderTemplate_current current rendered).symm.trans renders
    rw [content]
    exact screened

/-! ### Every step -/

theorem step_outbox (h : g.step P lease (.outbox a) = some t) :
    (∀ email, a ≠ .create email) ∧
      ∃ w, g.world.step lease a = some w ∧ { g with world := w } = t := by
  cases a with
  | create => cases h
  | _ => exact ⟨nofun, Option.map_eq_some_iff.mp h⟩

theorem coherent_written {clock : Time} {truth : String → Template → Prop}
    {cache : Cache String Template} (others : ∀ n, (caches n).Coherent clock truth)
    (written : cache.Coherent clock truth) (n : Nat) :
    (if n = node then cache else caches n).Coherent clock truth := by
  split
  · exact written
  · exact others n

theorem Kept.step (inv : Kept P engine g) {a : GatewayAction}
    (undisturbed : Undisturbed P engine g a) (h : g.step P lease a = some t) :
    Kept P engine t := by
  cases a with
  | outbox =>
    obtain ⟨other, w, moved, rfl⟩ := step_outbox h
    exact inv.outbox other moved
  | createTemplate =>
    simp only [Gateway.step] at h
    split at h <;> cases h
    next absent =>
      exact inv.write (.inr absent)
  | updateTemplate | deleteTemplate =>
    cases h
    exact inv.write (.inl undisturbed)
  | accept =>
    simp only [Gateway.step] at h
    split at h
    · cases h
      exact inv.begin nofun
    · cases h
  | deliver =>
    simp only [Gateway.step] at h
    split at h
    next p found =>
      split at h
      next req phase reads =>
        split at h
        · cases h
          refine inv.begin fun e same => ?_
          cases same
          have sends : p.maySend = true := by simp only [Pass.maySend, phase]
          exact ⟨rfl, reads, inv.passes p (mem_of_getElem? found) sends⟩
        · cases h
      · cases h
    · cases h
  | cacheGet =>
    simp only [Gateway.step] at h
    split at h
    next c here =>
      split at h <;> cases h
      next phase =>
        have live : c.phase ≠ .done := by simp [phase]
        apply inv.move here live
        · -- a hit is what the table has
          rintro tpl (read | answered)
          · split at read <;> cases read
          · split at answered <;> cases answered
            next found hit =>
              exact (inv.cached c.node).hit hit _ _ c.plain rfl
        · exact coherent_written inv.cached (inv.cached c.node).get
    · cases h
  | getByID =>
    simp only [Gateway.step] at h
    split at h
    next c here =>
      split at h <;> cases h
      next phase =>
        have live : c.phase ≠ .done := by simp [phase]
        refine inv.move here live ?_ inv.cached
        rintro tpl (read | answered)
        · split at read
          · cases read
          next row =>
            cases read
            exact row
          · cases read
        · split at answered <;> cases answered
    · cases h
  | cachePut =>
    simp only [Gateway.step] at h
    split at h
    next c here =>
      split at h <;> cases h
      next tpl phase =>
        have live : c.phase ≠ .done := by simp [phase]
        have row : g.templates c.tenantID c.req.templateID = some tpl :=
          inv.looked c (mem_of_getElem? here) tpl (.inl phase)
        apply inv.move here live
        · rintro other (read | answered)
          · cases read
          · cases answered
            exact row
        · -- under the key of one template only that template is written
          refine coherent_written inv.cached ((inv.cached c.node).put ?_)
          intro tenantID id plain same
          obtain ⟨rfl, rfl⟩ := cacheKey_inj plain c.plain same
          exact row
    · cases h
  | queue =>
    simp only [Gateway.step] at h
    split at h
    next c here =>
      split at h
      next answer _ phase =>
        -- the message is screened as the engine will render it
        cases undisturbed
        exact inv.queue here phase h
      · cases h
    · cases h
  | send =>
    simp only [Gateway.step] at h
    split at h
    next c here =>
      split at h <;> cases h
      next email answer errand phase =>
        exact inv.send here errand phase (undisturbed c email here errand)
    · cases h
  | abandon =>
    simp only [Gateway.step] at h
    split at h <;> cases h
    next c here =>
      exact inv.finish c

end

/-- In every run that leaves templates in use alone, every copy handed over has the subject and
the bodies that its message's filter rules were evaluated against. -/
theorem sent_as_screened (lease : Time) (engine : String → Renderer) (as : List GatewayAction)
    (g : Gateway) (run : exec (Gateway.step P lease) Gateway.init as = some g)
    (along : AllSteps (Gateway.step P lease) (Undisturbed P engine) Gateway.init as) :
    ∀ id content, (id, content) ∈ g.sent →
      (id, content) ∈ g.screened ∧ ∀ seen, (id, seen) ∈ g.screened → content = seen := by
  have inv := invariant_along (Gateway.step P lease) (Undisturbed P engine) (Kept P engine)
    (fun _ _ _ undisturbed kept h => kept.step undisturbed h) Gateway.init g as kept_init along run
  intro id content sent
  have screened := inv.sent _ sent
  refine ⟨screened, fun seen listed => ?_⟩
  cases inj_on_of_nodup_map inv.once screened listed rfl
  rfl

namespace Sample

open Delivery.Sample

def templated : SendEmailRequest := { request ["a@x"] with templateID := "w" }

def verbatim : Renderer := fun text _ => .ok text

def draft : Template := ⟨"draft", "", ""⟩
def approved : Template := ⟨"offer", "", "two for one"⟩
def edited : Template := ⟨"offer", "", "ten for one"⟩

def reviewed : List GatewayAction :=
  [.accept 0 "t" templated, .cacheGet 0, .getByID 0 none, .cachePut 0,
    .queue 0 verbatim (some .hold) { row.toOutboxEmail with status := .held },
    .outbox (.recordHold 0 "f" 0 none), .outbox (.review "t" "f" .release "reviewer" 0 ""),
    .outbox (.reviewGet 0), .outbox (.releaseRead 0), .outbox (.releaseWrite 0 0 0)]

def delivered : List GatewayAction :=
  [.outbox (.claimStart "c"), .outbox (.claimUpdate 0 10 []), .outbox (.claimList 0),
    .outbox (.pass 0 .confirmStart), .outbox (.pass 0 (.confirm .ok)), .deliver 1 0,
    .cacheGet 1, .getByID 1 none, .cachePut 1,
    .send 1 { Delivery.Sample.send [] fun _ => none with render := verbatim }]

/-- The template is finished before any message uses it. -/
def finishedFirst : List GatewayAction :=
  [.createTemplate "t" "w" draft, .updateTemplate "t" "w" approved] ++ (reviewed ++ delivered)

/-- The template is edited while the message waits. -/
def editedMeanwhile : List GatewayAction :=
  .createTemplate "t" "w" approved :: (reviewed ++ .updateTemplate "t" "w" edited :: delivered)

end Sample

open Sample Delivery.Sample

theorem sent_as_screened_finishedFirst : ∃ g,
    exec (Gateway.step (platform id templated) messageLease) Gateway.init finishedFirst = some g ∧
    ("m", ⟨"offer", "", "two for one"⟩) ∈ g.sent ∧
    ∀ seen, ("m", seen) ∈ g.screened → (⟨"offer", "", "two for one"⟩ : Content) = seen := by
  have runs : ∃ g ∈ exec (Gateway.step (platform id templated) messageLease) Gateway.init
      finishedFirst, ("m", ⟨"offer", "", "two for one"⟩) ∈ g.sent := by decide +kernel
  obtain ⟨g, run, sent⟩ := runs
  refine ⟨g, run, sent, ?_⟩
  have quiet : ∀ a ∈ reviewed ++ delivered, ∀ g,
      Undisturbed (platform id templated) (fun _ => verbatim) g a := by
    simp [reviewed, delivered, Undisturbed]
  have along : AllSteps (Gateway.step (platform id templated) messageLease)
      (Undisturbed (platform id templated) fun _ => verbatim) Gateway.init finishedFirst := by
    refine ⟨trivial, fun created taken => ⟨?_, fun t _ => ?_⟩⟩
    · -- nobody uses a template that was just created
      cases taken
      rintro (⟨r, member, _⟩ | ⟨p, member, _⟩ | ⟨c, member, _⟩ | ⟨node, e, member, _⟩)
      all_goals cases member
    · exact allSteps_of_labels _ _ t (reviewed ++ delivered) quiet
  exact (sent_as_screened (platform id templated) messageLease (fun _ => verbatim) finishedFirst g
    run along "m" _ sent).2

/-- The rules and the reviewer saw one offer, and another one went out. -/
theorem edited_template_sent : ∃ g,
    exec (Gateway.step (platform id templated) messageLease) Gateway.init editedMeanwhile = some g ∧
    g.screened = [("m", ⟨"offer", "", "two for one"⟩)] ∧
    g.sent = [("m", ⟨"offer", "", "ten for one"⟩)] := by
  decide +kernel

end Panmail.Templates
