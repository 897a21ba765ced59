import Panmail.Delivery.Attempts
import Panmail.Lib.Cache
import Panmail.Outbox.RowChange

/-!
# Templates, and the two times a message is rendered

The outbox with everything that decides a templated message's content: the template table and its
editors, each instance's template cache, the `SendEmail` calls that admit messages and those that
deliver them. A call of `getTemplate` is three steps, so an edit can fall between any two of them. A
queued message is stored as its request; the content is rendered at admission, for the filter rules,
and again in every pass.
-/
namespace Panmail.Templates

open Caches Outbox Delivery

variable (P : Platform)

/-- `templateCacheTTL`, one minute. -/
def templateCacheTTL : Time := 60000000000

def defaultMaxEntries : Nat := 4096

/-- The key `getTemplate` caches a template under. -/
def cacheKey (tenantID templateID : String) : String := tenantID ++ ":" ++ templateID

/-- Where a call is: before the cache, after a miss, with the template read and not yet
cached, with the answer, or over. -/
inductive CallPhase where
  | waiting
  | missed
  | read (tpl : Template)
  | answered (answer : Except String (Option Template))
  | done

/-- A `SendEmail` on one instance, from its `renderTemplate` on. A tenant's id is a UUID, so it
has no colon in it. -/
structure Call where
  node : Nat
  tenantID : String
  plain : ':' ∉ tenantID.toList
  req : SendEmailRequest
  /-- In worker mode, the message being delivered. -/
  email : Option OutboxEmail
  phase : CallPhase

/-- The call when it comes to `renderTemplate`: a request without a template looks none up. -/
def Call.start (node : Nat) (tenantID : String) (plain : ':' ∉ tenantID.toList)
    (req : SendEmailRequest) (email : Option OutboxEmail) : Call where
  node := node
  tenantID := tenantID
  plain := plain
  req := req
  email := email
  phase := if req.templateID = "" then .answered (.ok none) else .waiting

def Call.key (c : Call) : String := cacheKey c.tenantID c.req.templateID

structure Gateway where
  world : World
  /-- The template table, by tenant and id. -/
  templates : String → String → Option Template
  caches : Nat → Cache String Template
  calls : List Call
  /-- History: the content each message's filter rules were evaluated against. -/
  screened : List (String × Content)
  /-- History: the content of each copy of a message handed to a sender. -/
  sent : List (String × Content)

def Gateway.init : Gateway where
  world := World.init
  templates := fun _ _ => none
  caches := fun _ => Cache.empty
  calls := []
  screened := []
  sent := []

inductive GatewayAction where
  /-- A step of the outbox; rows are created by `queue` alone. -/
  | outbox (a : Outbox.Action)
  | createTemplate (tenantID id : String) (tpl : Template)
  | updateTemplate (tenantID id : String) (tpl : Template)
  | deleteTemplate (tenantID id : String)
  | accept (node : Nat) (tenantID : String) (req : SendEmailRequest)
  | deliver (node i : Nat)
  | cacheGet (j : Nat)
  | getByID (j : Nat) (failed : Option String)
  | cachePut (j : Nat)
  | queue (j : Nat) (render : Renderer) (decision : Option FilterAction) (email : OutboxEmail)
  | send (j : Nat) (input : SendInput)
  | abandon (j : Nat)

def writeTemplate (templates : String → String → Option Template) (tenantID id : String)
    (tpl : Option Template) : String → String → Option Template :=
  fun t i => if t = tenantID ∧ i = id then tpl else templates t i

def copies (effects : List Effect) : List Content :=
  effects.filterMap fun x => match x with
    | .send copy _ => some ⟨copy.subject, copy.html, copy.text⟩
    | _ => none

def Gateway.move (g : Gateway) (j : Nat) (c : Call) (phase : CallPhase) : Gateway :=
  { g with calls := g.calls.set j { c with phase := phase } }

/-- `SendEmail` in client mode from `renderTemplate` on. A message the rules refuse is not queued.
-/
def Gateway.queue (lease : Time) (g : Gateway) (j : Nat) (c : Call)
    (answer : Except String (Option Template)) (render : Renderer)
    (decision : Option FilterAction) (email : OutboxEmail) : Option Gateway :=
  match renderTemplate c.req answer render with
  | .error _ => some (g.move j c .done)
  | .ok content =>
    if decision = some .reject then some (g.move j c .done)
    else if email.tenantID = c.tenantID ∧ P.unmarshalRequest email.request = some c.req ∧
        email.status = (if decision = some .hold then .held else .pending) ∧
        email.id ∉ g.screened.map Prod.fst then
      (g.world.step lease (.create email)).map fun world =>
        { g.move j c .done with world := world, screened := g.screened ++ [(email.id, content)] }
    else none

/-- The rest of `SendEmail` in worker mode. -/
def Gateway.send (g : Gateway) (j : Nat) (c : Call) (email : OutboxEmail)
    (answer : Except String (Option Template)) (input : SendInput) : Gateway :=
  let effects := (sendEmail P email.tenantID email.id c.req { input with template := answer }).1
  { g.move j c .done with sent := g.sent ++ (copies effects).map fun content => (email.id, content) }

def Gateway.step (lease : Time) (g : Gateway) : GatewayAction → Option Gateway
  | .outbox (.create _) => none
  | .outbox a => (g.world.step lease a).map fun world => { g with world := world }
  | .createTemplate tenantID id tpl =>
    if g.templates tenantID id = none then
      some { g with templates := writeTemplate g.templates tenantID id (some tpl) }
    else none
  -- an `UPDATE` of a row that is gone changes nothing
  | .updateTemplate tenantID id tpl =>
    let row := (g.templates tenantID id).map fun _ => tpl
    some { g with templates := writeTemplate g.templates tenantID id row }
  | .deleteTemplate tenantID id =>
    some { g with templates := writeTemplate g.templates tenantID id none }
  | .accept node tenantID req =>
    if plain : ':' ∉ tenantID.toList then
      some { g with calls := g.calls ++ [Call.start node tenantID plain req none] }
    else none
  -- a pass that holds its lease comes to `SendEmail`
  | .deliver node i =>
    match g.world.passes[i]? with
    | some p =>
      match p.phase, P.unmarshalRequest p.email.request with
      | .sending, some req =>
        if plain : ':' ∉ p.email.tenantID.toList then
          some { g with
            calls := g.calls ++ [Call.start node p.email.tenantID plain req (some p.email)] }
        else none
      | _, _ => none
    | none => none
  | .cacheGet j =>
    match g.calls[j]? with
    | some c =>
      match c.phase with
      | .waiting =>
        let found := (g.caches c.node).get g.world.clock c.key
        let phase := match found.1 with
          | some tpl => .answered (.ok (some tpl))
          | none => .missed
        some { g.move j c phase with
          caches := fun node => if node = c.node then found.2 else g.caches node }
      | _ => none
    | none => none
  | .getByID j failed =>
    match g.calls[j]? with
    | some c =>
      match c.phase with
      | .missed => some (g.move j c (match failed, g.templates c.tenantID c.req.templateID with
          | some err, _ => .answered (.error err)
          | none, some tpl => .read tpl
          | none, none => .answered (.ok none)))
      | _ => none
    | none => none
  | .cachePut j =>
    match g.calls[j]? with
    | some c =>
      match c.phase with
      | .read tpl =>
        let written := (g.caches c.node).put g.world.clock templateCacheTTL defaultMaxEntries c.key tpl
        some { g.move j c (.answered (.ok (some tpl))) with
          caches := fun node => if node = c.node then written else g.caches node }
      | _ => none
    | none => none
  | .queue j render decision email =>
    match g.calls[j]? with
    | some c =>
      match c.email, c.phase with
      | none, .answered answer => g.queue P lease j c answer render decision email
      | _, _ => none
    | none => none
  | .send j input =>
    match g.calls[j]? with
    | some c =>
      match c.email, c.phase with
      | some email, .answered answer => some (g.send P j c email answer input)
      | _, _ => none
    | none => none
  -- refused by a check, handed an error, or crashed
  | .abandon j =>
    match g.calls[j]? with
    | some c => some (g.move j c .done)
    | none => none

end Panmail.Templates
