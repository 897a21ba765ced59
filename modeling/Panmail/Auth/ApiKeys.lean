import Panmail.Lib.Cache
import Panmail.Lib.Run
import Panmail.Lib.Table

/-!
# API keys and the cache of verified keys

A key that passes every check is kept in a cache, by the hash of the key, and the calls that change
a key evict it there. The calls are cut where another can run: a verification between its cache
read, its database read and its fill, an edit between its lookup, its statement and its eviction.
-/
namespace Panmail.Auth

open Tables Caches

inductive Scope where
  | emailSend
  | providersRead | providersWrite
  | templatesRead | templatesWrite
  | suppressionsRead | suppressionsWrite
  | webhooksRead | webhooksWrite
  | eventsRead
  | inboundRead
  | filtersRead | filtersWrite | filtersRelease
  | unknown (text : String)
  deriving DecidableEq

def defaultScopes : List Scope := [.emailSend]

def isValidScope : Scope → Bool
  | .unknown _ => false
  | _ => true

def normalizeScopes (requested : List Scope) : List Scope :=
  let out := requested.foldl (fun out s => if isValidScope s && s ∉ out then out ++ [s] else out) []
  if out = [] then defaultScopes else out

structure ApiKey where
  id : String
  tenantID : String
  name : String
  keyHash : String
  scopes : List Scope
  expiresAt : Option Nat
  isEnabled : Bool
  deriving DecidableEq

/-- `api_keys`, under its primary key. -/
abbrev KeyTable := Table ApiKey.id

def apiKeyCacheTTL : Nat := 5000000000

def apiKeyCacheMaxEntries : Nat := 4096

/-! ### Statements -/

def getByHash (t : KeyTable) (keyHash : String) : Option ApiKey :=
  t.rows.find? fun k => k.keyHash = keyHash

def getByID (t : KeyTable) (id tenantID : String) : Option ApiKey :=
  (t.lookup id).filter fun k => k.tenantID = tenantID

inductive Change where
  | update (name : String) (scopes : List Scope)
  | disable
  | enable
  | delete
  deriving DecidableEq

structure Edit where
  id : String
  tenantID : String
  change : Change

def Edit.names (e : Edit) (k : ApiKey) : Bool := k.id = e.id && k.tenantID = e.tenantID

def Edit.run (e : Edit) (t : KeyTable) : KeyTable :=
  match e.change with
  | .update name scopes => t.updateWhere e.names
      (fun k => { k with name := name, scopes := normalizeScopes scopes }) fun _ => rfl
  | .disable => t.updateWhere e.names (fun k => { k with isEnabled := false }) fun _ => rfl
  | .enable => t.updateWhere e.names (fun k => { k with isEnabled := true }) fun _ => rfl
  | .delete => t.deleteWhere e.names

/-! ### Calls -/

/-- Where an edit is: at its start, with the hash to evict, with its statement run, or with both. -/
inductive EditPhase where
  | waiting
  | looked (hash : String)
  /-- With, as history, the version of the table that first has the edit. -/
  | ran (version : Nat)
  | evicting (hash : String) (version : Nat)
  | returned
  | failed
  deriving DecidableEq

structure EditCall where
  edit : Edit
  phase : EditPhase

/-- Where a `VerifyApiKey` is: before the cache, with an expired entry, after a miss, with a checked
row, or answered. -/
inductive VerifyPhase where
  | waiting
  | lapsed
  | missed
  /-- With, as history, the version of the table that was read. -/
  | read (key : ApiKey) (version : Nat)
  | accepted (key : ApiKey)
  | refused (err : String)
  deriving DecidableEq

/-- An edit that has returned with no error, and the version that first has it. -/
structure Returned where
  id : String
  tenantID : String
  version : Nat
  deriving DecidableEq

structure VerifyCall where
  /-- The hash of the key presented. -/
  keyHash : String
  phase : VerifyPhase
  /-- History: the edits that had returned when the call started. -/
  before : List Returned
  deriving DecidableEq

/-- What never changes of a key. -/
structure Minted where
  id : String
  tenantID : String
  keyHash : String

def ApiKey.minted (k : ApiKey) : Minted := ⟨k.id, k.tenantID, k.keyHash⟩

structure KeyService where
  keys : KeyTable
  verified : Cache String ApiKey
  calls : List VerifyCall
  edits : List EditCall
  /-- History: the keys minted so far. -/
  issued : List Minted
  /-- History: the versions of the table, the current one last. -/
  versions : List KeyTable
  /-- History: the edits of this instance that have returned. -/
  returned : List Returned

def KeyService.init : KeyService where
  keys := Table.empty
  verified := Cache.empty
  calls := []
  edits := []
  issued := []
  versions := [Table.empty]
  returned := []

inductive KeyAction where
  /-- `CreateApiKey`, here or elsewhere, with a new id and secret drawn. -/
  | create (minted : Minted) (name : String) (scopes : List Scope) (expiresAt : Option Nat)
  | elsewhere (e : Edit)
  | edit (e : Edit)
  /-- `GetByID`, which may fail. -/
  | lookup (i : Nat) (failed : Bool)
  /-- The statement; when it is reported failed it may have run or not. -/
  | exec (i : Nat) (failed : Bool) (ran : Bool)
  | forget (i : Nat)
  | verify (keyHash : String)
  /-- The cache's clock and the clock the expiry is held against. -/
  | cacheGet (j : Nat) (clock now : Nat)
  | cacheDelete (j : Nat)
  | getByHash (j : Nat) (failed : Option String) (now : Nat)
  | fill (j : Nat) (clock : Nat)

def KeyService.commit (s : KeyService) (t : KeyTable) : KeyService :=
  { s with keys := t, versions := s.versions ++ [t] }

def KeyService.move (s : KeyService) (j : Nat) (c : VerifyCall) (phase : VerifyPhase) :
    KeyService :=
  { s with calls := s.calls.set j { c with phase := phase } }

def KeyService.advance (s : KeyService) (i : Nat) (e : EditCall) (phase : EditPhase) : KeyService :=
  { s with edits := s.edits.set i { e with phase := phase } }

def KeyService.hashOf (s : KeyService) (e : Edit) (failed : Bool) : String :=
  if failed then "" else
    match getByID s.keys e.id e.tenantID with
    | some key => key.keyHash
    | none => ""

/-- `GetByID` in an edit: an update needs the row, the others take what they get. -/
def KeyService.lookup (s : KeyService) (e : EditCall) (failed : Bool) : Option EditPhase :=
  match e.phase, e.edit.change with
  | .waiting, .update _ _ =>
    some (if failed || (getByID s.keys e.edit.id e.edit.tenantID).isNone then .failed
      else .looked (s.hashOf e.edit failed))
  | .waiting, .delete => some (.looked (s.hashOf e.edit failed))
  | .ran version, .disable | .ran version, .enable =>
    some (.evicting (s.hashOf e.edit failed) version)
  | _, _ => none

/-- What an edit does once its statement has run as the next version. An update that finds
no row is reported. -/
def KeyService.executed (s : KeyService) (e : EditCall) : Option EditPhase :=
  let version := s.versions.length
  match e.phase, e.edit.change with
  | .looked hash, .update _ _ =>
    some (if s.keys.rows.any e.edit.names then .evicting hash version else .failed)
  | .looked hash, .delete => some (.evicting hash version)
  | .waiting, .disable | .waiting, .enable => some (.ran version)
  | _, _ => none

/-- The checks of `VerifyApiKey` on the row it read. -/
def checkKey (now : Nat) (found : Option ApiKey) : Except String ApiKey :=
  match found with
  | none => .error "sql: no rows in result set"
  | some key =>
    if !key.isEnabled then .error "api key is disabled"
    else if key.expiresAt.any (· < now) then .error "api key has expired"
    else .ok key

def KeyService.step (s : KeyService) : KeyAction → Option KeyService
  | .create minted name scopes expiresAt =>
    if minted.id ∈ s.issued.map Minted.id then none
    else (s.keys.insert? ⟨minted.id, minted.tenantID, name, minted.keyHash,
        normalizeScopes scopes, expiresAt, true⟩).map fun t =>
      { s.commit t with issued := s.issued ++ [minted] }
  | .elsewhere e => some (s.commit (e.run s.keys))
  | .edit e => some { s with edits := s.edits ++ [⟨e, .waiting⟩] }
  | .lookup i failed =>
    match s.edits[i]? with
    | some e => (s.lookup e failed).map (s.advance i e)
    | none => none
  | .exec i failed ran =>
    match s.edits[i]? with
    | some e =>
      (s.executed e).map fun phase =>
        let after := if ran || !failed then s.commit (e.edit.run s.keys) else s
        after.advance i e (if failed then .failed else phase)
    | none => none
  | .forget i =>
    match s.edits[i]? with
    | some e =>
      match e.phase with
      | .evicting hash version =>
        some { s.advance i e .returned with
          verified := if hash = "" then s.verified else s.verified.without hash
          returned := s.returned ++ [⟨e.edit.id, e.edit.tenantID, version⟩] }
      | _ => none
    | none => none
  | .verify keyHash => some { s with calls := s.calls ++ [⟨keyHash, .waiting, s.returned⟩] }
  | .cacheGet j clock now =>
    match s.calls[j]? with
    | some c =>
      match c.phase with
      | .waiting =>
        let found := s.verified.get clock c.keyHash
        let phase := match found.1 with
          | some key => if key.expiresAt.any (· ≤ now) then .lapsed else .accepted key
          | none => .missed
        some { s.move j c phase with verified := found.2 }
      | _ => none
    | none => none
  | .cacheDelete j =>
    match s.calls[j]? with
    | some c =>
      match c.phase with
      | .lapsed => some { s.move j c .missed with verified := s.verified.without c.keyHash }
      | _ => none
    | none => none
  | .getByHash j failed now =>
    match s.calls[j]? with
    | some c =>
      match c.phase with
      | .missed =>
        some (s.move j c (match failed with
          | some err => .refused err
          | none =>
            match checkKey now (getByHash s.keys c.keyHash) with
            | .error err => .refused err
            | .ok key => .read key (s.versions.length - 1)))
      | _ => none
    | none => none
  | .fill j clock =>
    match s.calls[j]? with
    | some c =>
      match c.phase with
      | .read key _ =>
        some { s.move j c (.accepted key) with
          verified := s.verified.put clock apiKeyCacheTTL apiKeyCacheMaxEntries c.keyHash key }
      | _ => none
    | none => none

end Panmail.Auth
