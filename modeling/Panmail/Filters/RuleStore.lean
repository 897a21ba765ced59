import Panmail.Lib.Cache
import Panmail.Lib.Run
import Panmail.Filters.Rule

/-!
# The rule store of one instance

`Enabled` answers every message from a cache of compiled rules. A call that misses reads the
database and fills the cache, and a write evicts; the two meet in a generation counter, read before
the database and compared before the fill. A call is cut where another can run.
-/
namespace Panmail.Filters

open Tables Caches
open Outbox (Direction)

abbrev RuleTable := Table Rule.id

/-- `enabledRulesTTL`, ten seconds. -/
def enabledRulesTTL : Nat := 10000000000

def enabledRulesMaxEntries : Nat := 8192

/-- A direction as the column spells it. -/
def column : Direction → RuleDirection
  | .inbound => .inbound
  | .outbound => .outbound

def enabledKey (tenantID : String) (direction : Direction) : String :=
  tenantID ++ "|" ++ (column direction).text

/-! ### Statements -/

/-- The statements of `Create`, `Update` and `Delete`. -/
inductive RuleWrite where
  | create (r : Rule)
  | update (r : Rule)
  | delete (tenantID id : String)

def RuleWrite.tenantID : RuleWrite → String
  | .create r | .update r => r.tenantID
  | .delete tenantID _ => tenantID

/-- `Create` and `Update` validate the rule before they run anything. -/
def RuleWrite.valid (compile : Compile) : RuleWrite → Bool
  | .create r | .update r => (r.validate compile).isOk
  | .delete _ _ => true

/-- What the statement does to the table. An insert of a taken id is refused. -/
def RuleWrite.run (w : RuleWrite) (t : RuleTable) : RuleTable :=
  match w with
  | .create r => (t.insert? r).getD t
  | .update r => t.updateWhere (fun x => x.tenantID = r.tenantID && x.id = r.id)
      (fun x => { r with id := x.id, tenantID := x.tenantID }) fun _ => rfl
  | .delete tenantID id => t.deleteWhere fun x => x.tenantID = tenantID && x.id = id

def enabledRules (t : RuleTable) (tenantID : String) (direction : Direction) : List Rule :=
  (t.selectWhere fun r => r.tenantID = tenantID && r.direction = column direction &&
    r.enabled).insertionSort fun a b => a.priority < b.priority ∨
      a.priority = b.priority ∧ a.id ≤ b.id

/-- The rules are compiled as they are read; the first that is stored invalid fails the read. -/
def compileRules (compile : Compile) : List Rule → Except String (List Rule)
  | [] => .ok []
  | r :: rest =>
    match r.validate compile with
    | .error err => .error ("rule " ++ r.id ++ " is stored invalid: " ++ err)
    | .ok () => (compileRules compile rest).map (r :: ·)

/-! ### Calls -/

/-- Where an `Enabled` is: before the cache, after a miss, with the generation read, with the rules
read, or answered. -/
inductive EnabledPhase where
  | waiting
  | missed
  | stamped (generation : Nat)
  /-- With, as history, the version of the table that was read. -/
  | read (generation : Nat) (rules : List Rule) (version : Nat)
  | answered (answer : Except String (List Rule))

structure EnabledCall where
  tenantID : String
  direction : Direction
  phase : EnabledPhase
  /-- History: the writes that had returned when the call started, by tenant and version. -/
  before : List (String × Nat)

structure WriteCall where
  tenantID : String
  /-- History: the version of the table that first has it. -/
  version : Nat
  returned : Bool

structure RuleStore where
  rules : RuleTable
  enabled : Cache String (List Rule)
  generation : Nat
  calls : List EnabledCall
  writes : List WriteCall
  /-- History: the versions of the table, the current one last. -/
  versions : List RuleTable
  /-- History: the writes of this instance that have returned, by tenant and version. -/
  returned : List (String × Nat)

def RuleStore.init : RuleStore where
  rules := Table.empty
  enabled := Cache.empty
  generation := 0
  calls := []
  writes := []
  versions := [Table.empty]
  returned := []

inductive StoreAction where
  /-- `ExecContext` in a write; with an error it may have run or not. -/
  | exec (w : RuleWrite) (ran : Bool)
  | invalidate (i : Nat)
  | elsewhere (w : RuleWrite)
  | call (tenantID : String) (direction : Direction)
  | cacheGet (j : Nat) (now : Nat)
  | readGeneration (j : Nat)
  | query (j : Nat) (failed : Option String)
  | fill (j : Nat) (now : Nat)

def RuleStore.commit (s : RuleStore) (w : RuleWrite) : RuleStore :=
  { s with rules := w.run s.rules, versions := s.versions ++ [w.run s.rules] }

def RuleStore.move (s : RuleStore) (j : Nat) (c : EnabledCall) (phase : EnabledPhase) : RuleStore :=
  { s with calls := s.calls.set j { c with phase := phase } }

def RuleStore.step (compile : Compile) (s : RuleStore) : StoreAction → Option RuleStore
  | .exec w ran =>
    if w.valid compile then
      let after := if ran then s.commit w else s
      some { after with
        writes := s.writes ++ [⟨w.tenantID, after.versions.length - 1, false⟩] }
    else none
  | .invalidate i =>
    match s.writes[i]? with
    | some w =>
      if w.returned then none
      else some { s with
        generation := s.generation + 1
        enabled := (s.enabled.without (enabledKey w.tenantID .inbound)).without
          (enabledKey w.tenantID .outbound)
        writes := s.writes.set i { w with returned := true }
        returned := s.returned ++ [(w.tenantID, w.version)] }
    | none => none
  | .elsewhere w => some (s.commit w)
  | .call tenantID direction =>
    some { s with calls := s.calls ++ [⟨tenantID, direction, .waiting, s.returned⟩] }
  | .cacheGet j now =>
    match s.calls[j]? with
    | some c =>
      match c.phase with
      | .waiting =>
        let found := s.enabled.get now (enabledKey c.tenantID c.direction)
        let phase := match found.1 with
          | some rules => .answered (.ok rules)
          | none => .missed
        some { s.move j c phase with enabled := found.2 }
      | _ => none
    | none => none
  | .readGeneration j =>
    match s.calls[j]? with
    | some c =>
      match c.phase with
      | .missed => some (s.move j c (.stamped s.generation))
      | _ => none
    | none => none
  | .query j failed =>
    match s.calls[j]? with
    | some c =>
      match c.phase with
      | .stamped generation =>
        some (s.move j c (match failed with
          | some err => .answered (.error err)
          | none =>
            match compileRules compile (enabledRules s.rules c.tenantID c.direction) with
            | .error err => .answered (.error err)
            | .ok rules => .read generation rules (s.versions.length - 1)))
      | _ => none
    | none => none
  | .fill j now =>
    match s.calls[j]? with
    | some c =>
      match c.phase with
      | .read generation rules _ =>
        some { s.move j c (.answered (.ok rules)) with
          enabled := if s.generation = generation
            then s.enabled.put now enabledRulesTTL enabledRulesMaxEntries
              (enabledKey c.tenantID c.direction) rules
            else s.enabled }
      | _ => none
    | none => none

end Panmail.Filters
