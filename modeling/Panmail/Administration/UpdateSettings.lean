import Panmail.Lib.Run
import Panmail.Lib.Text

/-!
# Saving the system settings

`UpdateSettings` reads the one row of settings, edits the fields its request carries and writes
the whole row back. Calls on any number of instances share the row, and between the read and
the save of one call others may save.
-/
namespace Panmail.Administration

open Runs

/-! ### The row and the message -/

/-- The data kept for ever unless the settings say otherwise. -/
inductive Stored where
  | message | outbox | appLog | inbound | archive | quarantine | analytics

structure Settings where
  baseURL : String
  retryPattern : List String
  logRetentionDays : Option Int
  webhookRetentionDays : Option Int
  retentionDays : Stored → Int
  contentRedaction : String

def Settings.empty : Settings := ⟨"", [], none, none, fun _ => 0, ""⟩

inductive Level where
  | passwords | codes | secrets | off
  deriving DecidableEq

/-- The words are ASCII, and no other letter has one of theirs for its lower case. -/
def Level.fromString (s : String) : Level :=
  let word := Text.CaseMapping.ascii.normal s
  if word = "off" then .off
  else if word = "codes" then .codes
  else if word = "secrets" then .secrets
  else .passwords

def Level.string : Level → String
  | .off => "off"
  | .codes => "codes"
  | .secrets => "secrets"
  | .passwords => "passwords"

/-- `ContentRedaction`, with the numbers that have no name. -/
inductive ContentRedaction where
  | unspecified | off | passwords | codes | secrets
  | other (n : Int)
  deriving DecidableEq

def redactionFromProto : ContentRedaction → Level
  | .off => .off
  | .codes => .codes
  | .secrets => .secrets
  | _ => .passwords

def redactionToProto : Level → ContentRedaction
  | .off => .off
  | .codes => .codes
  | .secrets => .secrets
  | .passwords => .passwords

structure SystemSettings where
  baseUrl : Option String
  retryPattern : List String
  logRetentionDays : Option Int
  webhookRetentionDays : Option Int
  retentionDays : Stored → Option Int
  contentRedaction : ContentRedaction

/-! ### Retention -/

def maxDays : Int := 3650

def clampDays (days : Int) : Int :=
  if days < 0 then 0 else if maxDays < days then maxDays else days

structure Policy where
  eventDays : Int
  webhookDays : Int
  days : Stored → Int

/-- `Resolve`, with `DefaultEventDays` and `DefaultWebhookDays`. -/
def resolve : Option Settings → Policy
  | none => ⟨14, 7, fun _ => 0⟩
  | some s => ⟨(s.logRetentionDays.map clampDays).getD 14,
      (s.webhookRetentionDays.map clampDays).getD 7, fun c => clampDays (s.retentionDays c)⟩

def Policy.apply (p : Policy) (s : Settings) : Settings :=
  { s with
    logRetentionDays := some (clampDays p.eventDays)
    webhookRetentionDays := some (clampDays p.webhookDays)
    retentionDays := fun c => clampDays (p.days c) }

def applyPresentRetention (s : SystemSettings) (stored : Settings) : Settings :=
  let p := resolve (some stored)
  Policy.apply ⟨s.logRetentionDays.getD p.eventDays, s.webhookRetentionDays.getD p.webhookDays,
    fun c => (s.retentionDays c).getD (p.days c)⟩ stored

/-! ### Reading and editing -/

def defaultRetryPattern : List String := ["5m", "15m", "30m", "1h", "3h", "6h", "12h", "24h"]

/-- `GetSettings`, of the row there is. -/
def getSettings (row : Option Settings) : SystemSettings :=
  let p := resolve row
  let stored := row.getD .empty
  { baseUrl := some stored.baseURL
    retryPattern := if stored.retryPattern = [] then defaultRetryPattern else stored.retryPattern
    logRetentionDays := some p.eventDays
    webhookRetentionDays := some p.webhookDays
    retentionDays := fun c => some (p.days c)
    contentRedaction := redactionToProto (Level.fromString stored.contentRedaction) }

/-- The row that `UpdateSettings` saves for a request, having read `row`. -/
def updateSettings (s : SystemSettings) (row : Option Settings) : Settings :=
  let stored := row.getD .empty
  let stored := { stored with baseURL := s.baseUrl.getD stored.baseURL }
  let stored := if s.retryPattern = [] then stored else { stored with retryPattern := s.retryPattern }
  let stored := applyPresentRetention s stored
  if s.contentRedaction = .unspecified then stored
  else { stored with contentRedaction := (redactionFromProto s.contentRedaction).string }

/-! ### Fields -/

inductive Field where
  | baseUrl | retryPattern | logRetentionDays | webhookRetentionDays
  | retentionDays (c : Stored)
  | contentRedaction

inductive Value where
  | text (s : String)
  | texts (ss : List String)
  | days (n : Int)
  | redaction (r : ContentRedaction)
  deriving DecidableEq

/-- What a message carries for a field. A repeated field carries nothing when it is empty. -/
def SystemSettings.value (s : SystemSettings) : Field → Option Value
  | .baseUrl => s.baseUrl.map .text
  | .retryPattern => if s.retryPattern = [] then none else some (.texts s.retryPattern)
  | .logRetentionDays => s.logRetentionDays.map .days
  | .webhookRetentionDays => s.webhookRetentionDays.map .days
  | .retentionDays c => (s.retentionDays c).map .days
  | .contentRedaction =>
    if s.contentRedaction = .unspecified then none else some (.redaction s.contentRedaction)

/-- The value in range: days are clamped, and a redaction without a name is the default. -/
def Value.clamped : Value → Value
  | .days n => .days (clampDays n)
  | .redaction r => .redaction (redactionToProto (redactionFromProto r))
  | v => v

def SystemSettings.gives (s : SystemSettings) (f : Field) : Option Value :=
  (s.value f).map Value.clamped

def effective (row : Option Settings) (f : Field) : Option Value := (getSettings row).value f

@[simp] theorem clampDays_clampDays (n : Int) : clampDays (clampDays n) = clampDays n := by
  unfold clampDays maxDays
  grind

@[simp] theorem fromString_string (l : Level) : Level.fromString l.string = l := by
  cases l <;> decide

@[simp] theorem redactionToProto_named (l : Level) : redactionToProto l ≠ .unspecified := by
  cases l <;> simp [redactionToProto]

theorem resolve_some (s : Settings) : resolve (some s) =
    ⟨(s.logRetentionDays.map clampDays).getD 14, (s.webhookRetentionDays.map clampDays).getD 7,
      fun c => clampDays (s.retentionDays c)⟩ := rfl

@[simp] theorem resolve_empty : resolve (some .empty) = resolve none := by
  simp [resolve, Settings.empty, clampDays, maxDays]

theorem resolve_getD (row : Option Settings) : resolve (some (row.getD .empty)) = resolve row := by
  cases row <;> simp

theorem resolve_clamped (row : Option Settings) :
    clampDays (resolve row).eventDays = (resolve row).eventDays ∧
      clampDays (resolve row).webhookDays = (resolve row).webhookDays ∧
      ∀ c, clampDays ((resolve row).days c) = (resolve row).days c := by
  cases row with
  | none => exact ⟨rfl, rfl, fun _ => rfl⟩
  | some s =>
    refine ⟨?_, ?_, fun c => clampDays_clampDays _⟩
    · cases days : s.logRetentionDays <;> simp [resolve, days]
      decide
    · cases days : s.webhookRetentionDays <;> simp [resolve, days]
      decide

theorem updateSettings_eq (s : SystemSettings) (row : Option Settings) : updateSettings s row =
    { baseURL := s.baseUrl.getD (row.getD .empty).baseURL
      retryPattern :=
        if s.retryPattern = [] then (row.getD .empty).retryPattern else s.retryPattern
      logRetentionDays := some (clampDays (s.logRetentionDays.getD (resolve row).eventDays))
      webhookRetentionDays :=
        some (clampDays (s.webhookRetentionDays.getD (resolve row).webhookDays))
      retentionDays := fun c => clampDays ((s.retentionDays c).getD ((resolve row).days c))
      contentRedaction := if s.contentRedaction = .unspecified then
        (row.getD .empty).contentRedaction else (redactionFromProto s.contentRedaction).string } := by
  rw [← resolve_getD row]
  unfold updateSettings applyPresentRetention Policy.apply
  by_cases pattern : s.retryPattern = [] <;>
    by_cases redaction : s.contentRedaction = .unspecified <;> simp [pattern, redaction, resolve]

open SystemSettings

/-- After a save every field is what the request gave, or else what the call had read. -/
theorem effective_update (s : SystemSettings) (row : Option Settings) (f : Field) :
    effective (some (updateSettings s row)) f = (s.gives f).or (effective row f) := by
  obtain ⟨events, webhooks, others⟩ := resolve_clamped row
  rw [updateSettings_eq]
  simp only [effective, getSettings, gives]
  cases f with
  | baseUrl => cases carried : s.baseUrl <;> simp [value, carried, Value.clamped]
  | retryPattern =>
    by_cases carried : s.retryPattern = [] <;> simp [value, carried, Value.clamped]
  | logRetentionDays =>
    cases carried : s.logRetentionDays <;>
      simp [value, carried, Value.clamped, resolve_some, events]
  | webhookRetentionDays =>
    cases carried : s.webhookRetentionDays <;>
      simp [value, carried, Value.clamped, resolve_some, webhooks]
  | retentionDays c =>
    cases carried : s.retentionDays c <;>
      simp [value, carried, Value.clamped, resolve_some, others]
  | contentRedaction =>
    by_cases carried : s.contentRedaction = .unspecified <;>
      simp [value, carried, Value.clamped]

/-! ### Calls -/

structure SettingsCall where
  request : SystemSettings
  read : Option Settings
  saved : Bool

structure SettingsWorld where
  row : Option Settings
  calls : List SettingsCall
  /-- History: the requests saved, in order. -/
  saves : List SystemSettings

inductive SettingsAction where
  | read (s : SystemSettings)
  | save (i : Nat)

def SettingsWorld.start (row : Option Settings) : SettingsWorld := ⟨row, [], []⟩

def SettingsWorld.step (w : SettingsWorld) : SettingsAction → Option SettingsWorld
  | .read s => some { w with calls := w.calls ++ [⟨s, w.row, false⟩] }
  | .save i => match w.calls[i]? with
    | some c =>
      if c.saved then none
      else some {
        row := some (updateSettings c.request c.read)
        calls := w.calls.set i { c with saved := true }
        saves := w.saves ++ [c.request] }
    | none => none

/-- What the last save that carried the field gave it. -/
def lastGiven (saves : List SystemSettings) (f : Field) : Option Value :=
  saves.reverse.findSome? fun s => s.gives f

/-- A save leaves the fields that its request does not carry as they are. -/
def SettingsWorld.Keeps (w : SettingsWorld) (a : SettingsAction) : Prop :=
  ∀ i c v, a = .save i → w.calls[i]? = some c → w.step a = some v →
    ∀ f, c.request.value f = none → effective v.row f = effective w.row f

/-- The row that a save's call had read still has the values in force of the fields its request does
not carry. -/
def SettingsWorld.Fresh (w : SettingsWorld) (a : SettingsAction) : Prop :=
  ∀ i c, a = .save i → w.calls[i]? = some c → c.saved = false →
    ∀ f, c.request.value f = none → effective c.read f = effective w.row f

theorem step_save {w v : SettingsWorld} {i : Nat} (h : w.step (.save i) = some v) :
    ∃ c, w.calls[i]? = some c ∧ c.saved = false ∧
      v.row = some (updateSettings c.request c.read) ∧ v.saves = w.saves ++ [c.request] := by
  simp only [SettingsWorld.step] at h
  split at h
  next c found =>
    split at h <;> cases h
    next pending =>
      exact ⟨c, found, by simpa using pending, rfl, rfl⟩
  · cases h

theorem keeps_iff_fresh (w : SettingsWorld) (a : SettingsAction) : w.Keeps a ↔ w.Fresh a := by
  constructor
  · rintro keeps i c rfl found pending f unmentioned
    have kept := keeps i c _ rfl found (by simp only [SettingsWorld.step, found, pending]; rfl) f
      unmentioned
    rwa [effective_update, gives, unmentioned] at kept
  · rintro fresh i c v rfl found h f unmentioned
    obtain ⟨d, found', pending, row, _⟩ := step_save h
    obtain rfl : d = c := Option.some.inj (found'.symm.trans found)
    rw [row, effective_update, gives, unmentioned]
    exact fresh i d rfl found pending f unmentioned

/-- Every field is what the last save that carried it gave it, or what it was at the start. -/
def SettingsWorld.LastWins (row : Option Settings) (w : SettingsWorld) : Prop :=
  ∀ f, effective w.row f = (lastGiven w.saves f).or (effective row f)

theorem SettingsWorld.LastWins.step {row : Option Settings} {w v : SettingsWorld}
    {a : SettingsAction} (inv : w.LastWins row) (fresh : w.Fresh a) (h : w.step a = some v) :
    v.LastWins row := by
  cases a with
  | read =>
    cases h
    exact inv
  | save i =>
    obtain ⟨c, found, pending, saved, saves⟩ := step_save h
    intro f
    rw [saved, effective_update, saves, lastGiven, List.reverse_append]
    cases carried : c.request.value f with
    | none =>
      rw [fresh i c rfl found pending f carried, inv f]
      simp [gives, carried, lastGiven]
    | some => simp [gives, carried]

/-- In every interleaving of calls' reads and saves, no save reverts a field its request does not
carry and every field ends with the last value given, exactly when the row read before each save is
still current in the fields not carried. -/
theorem last_save_wins_iff (row : Option Settings) (actions : List SettingsAction) :
    (AllSteps SettingsWorld.step SettingsWorld.Keeps (.start row) actions ∧
      ∀ w, exec SettingsWorld.step (.start row) actions = some w → w.LastWins row) ↔
      AllSteps SettingsWorld.step SettingsWorld.Fresh (.start row) actions := by
  have same : SettingsWorld.Keeps = SettingsWorld.Fresh := by
    funext w a
    exact propext (keeps_iff_fresh w a)
  rw [same]
  refine ⟨And.left, fun along => ⟨along, fun w run => ?_⟩⟩
  exact invariant_along SettingsWorld.step SettingsWorld.Fresh (SettingsWorld.LastWins row)
    (fun _ _ _ fresh inv h => inv.step fresh h) (.start row) w actions
    (fun f => by simp [SettingsWorld.start, lastGiven]) along run

def SystemSettings.blank : SystemSettings := ⟨none, [], none, none, fun _ => none, .unspecified⟩

/-- A save that read before another call set the base URL puts the old one back. -/
theorem base_url_reverted : ∃ w, exec SettingsWorld.step (.start none)
      [.read { SystemSettings.blank with baseUrl := some "https://mail.example.com" },
        .read { SystemSettings.blank with logRetentionDays := some 30 }, .save 0, .save 1] = some w ∧
    effective w.row .baseUrl = some (.text "") ∧
    lastGiven w.saves .baseUrl = some (.text "https://mail.example.com") ∧
    ¬ w.LastWins none := by
  refine ⟨_, rfl, rfl, rfl, fun wins => ?_⟩
  have base := wins .baseUrl
  exact absurd base (by decide)

end Panmail.Administration
