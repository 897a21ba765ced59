import Panmail.Lib.Run

/-!
# The supervisor of the submission listener

`Apply` brings the listener in line with a configuration. It holds one mutex all along, so a call is
one step. The accept loop of a listener runs beside it: it may end by itself at any time, and takes
the mutex only afterwards, to record that. What ends it is taken to be the loss of the socket, which
frees the address.
-/
namespace Panmail.Smtp

open Runs List

inductive BindScope where
  | loopback
  | allInterfaces
  | other (name : String)
  deriving DecidableEq

structure Config where
  enabled : Bool
  bindScope : BindScope
  port : Int
  tlsCertPEM : String
  tlsKeyPEM : String
  allowInsecureAuth : Bool
  deriving DecidableEq

def Config.default : Config := ⟨false, .loopback, 587, "", "", false⟩

def Config.hasTLS (c : Config) : Bool := c.tlsCertPEM ≠ "" && c.tlsKeyPEM ≠ ""

def allInterfacesHost : String := "0.0.0.0"

def Config.host (c : Config) : String :=
  if c.bindScope = .allInterfaces then allInterfacesHost else "127.0.0.1"

/-- `host:port`, which names both, as no host has a colon. -/
abbrev Addr := String × Int

def Config.addr (c : Config) : Addr := (c.host, c.port)

inductive SubmissionError where
  | invalidBindScope | invalidPort | relayPort | incompleteTLS | insecureAuthOffLoopback | tlsRequired
  | noAuthPath | invalidKeypair | insecureAuthWithoutTLS
  | cannotListen (addr : Addr)
  | notRestored (cause error : SubmissionError)
  /-- What ended an accept loop. -/
  | stopped
  deriving DecidableEq

section
-- `tls.X509KeyPair`: whether the key is the certificate's
variable (keypair : String → String → Bool)

def Config.validate (c : Config) : Option SubmissionError :=
  if c.bindScope ≠ .loopback ∧ c.bindScope ≠ .allInterfaces then some .invalidBindScope
  else if c.port ≤ 0 ∨ 65535 < c.port then some .invalidPort
  else if c.port = 25 then some .relayPort
  else if (c.tlsCertPEM == "") != (c.tlsKeyPEM == "") then some .incompleteTLS
  else if c.allowInsecureAuth ∧ c.bindScope ≠ .loopback then some .insecureAuthOffLoopback
  else if c.bindScope = .allInterfaces ∧ ¬ c.hasTLS then some .tlsRequired
  else if c.enabled ∧ ¬ c.hasTLS ∧ ¬ c.allowInsecureAuth then some .noAuthPath
  else if c.hasTLS ∧ ¬ keypair c.tlsCertPEM c.tlsKeyPEM then some .invalidKeypair
  else none

/-- Every field a listener is built from is the same. -/
def Config.serves (c desired : Config) : Bool :=
  c.addr = desired.addr && c.allowInsecureAuth = desired.allowInsecureAuth &&
    c.tlsCertPEM = desired.tlsCertPEM && c.tlsKeyPEM = desired.tlsKeyPEM

/-- A listener goes by the generation that installed it. -/
structure Listener where
  generation : Nat
  config : Config

structure Supervisor where
  /-- Set and cleared together with the server and its listener. -/
  running : Option Config
  generation : Nat
  lastErr : Option SubmissionError
  /-- The listeners opened here that are open. -/
  listeners : List Listener
  /-- The accept loops that were started and have not failed. -/
  loops : List Nat
  /-- The accept loops that have failed and not recorded it. -/
  failed : List Nat

/-- What the system says to a bind, with these addresses open here. -/
abbrev Bind := List Addr → Addr → Bool

namespace Supervisor
variable (s : Supervisor)

def init : Supervisor := ⟨none, 0, none, [], [], []⟩

def bindLocked (cfg : Config) (bind : Bind) : Option SubmissionError :=
  if cfg.hasTLS ∧ ¬ keypair cfg.tlsCertPEM cfg.tlsKeyPEM then some .invalidKeypair
  else if ¬ cfg.hasTLS ∧ ¬ cfg.allowInsecureAuth then some .insecureAuthWithoutTLS
  else if bind (s.listeners.map (·.config.addr)) cfg.addr then none
  else some (.cannotListen cfg.addr)

def installLocked (cfg : Config) : Supervisor :=
  { s with
    running := some cfg
    generation := s.generation + 1
    listeners := s.listeners ++ [⟨s.generation + 1, cfg⟩]
    loops := s.loops ++ [s.generation + 1] }

def stopLocked : Supervisor :=
  if s.running.isNone then s
  else { s with
    running := none
    generation := s.generation + 1
    listeners := s.listeners.filter (·.generation ≠ s.generation) }

def startLocked (cfg : Config) (bind : Bind) : Supervisor × Option SubmissionError :=
  match s.bindLocked keypair cfg bind with
  | some err => (s, some err)
  | none => (s.installLocked cfg, none)

def restoreLocked (previous : Option Config) (cause : SubmissionError) (bind : Bind) :
    Supervisor × Option SubmissionError :=
  match previous.filter Config.enabled with
  | none => (s, some cause)
  | some previous => match s.startLocked keypair previous bind with
    | (s, some err) =>
      ({ s with lastErr := some (.notRestored cause err) }, some (.notRestored cause err))
    | (s, none) => ({ s with lastErr := some cause }, some cause)

def matchesRunningLocked (desired : Config) : Bool :=
  if !desired.enabled then s.running.isNone else s.running.any (·.serves desired)

/-- The binds of a call are answered in turn. -/
def apply (desired : Option Config) (bind restore : Bind) : Supervisor × Option SubmissionError :=
  let desired := desired.getD .default
  match desired.validate keypair with
  | some err => (s, some err)
  | none =>
    if s.matchesRunningLocked desired then ({ s with lastErr := none }, none)
    else if !desired.enabled then ({ s.stopLocked with lastErr := none }, none)
    else if s.running.all (·.addr ≠ desired.addr) then
      match s.bindLocked keypair desired bind with
      | some err => ({ s with lastErr := some err }, some err)
      | none => ({ s.stopLocked.installLocked desired with lastErr := none }, none)
    else
      -- the port cannot be held twice, so the old listener goes first
      match s.stopLocked.startLocked keypair desired bind with
      | (t, some err) => { t with lastErr := some err }.restoreLocked keypair s.running err restore
      | (t, none) => ({ t with lastErr := none }, none)

end Supervisor

inductive Event where
  | apply (desired : Option Config) (bind restore : Bind)
  | close
  /-- The accept loop returns an error, its socket being gone. -/
  | die (generation : Nat)
  | record (generation : Nat)

def Supervisor.step (s : Supervisor) : Event → Option Supervisor
  | .apply desired bind restore => some (s.apply keypair desired bind restore).1
  | .close => some s.stopLocked
  | .die generation =>
    if generation ∈ s.loops then
      some { s with
        loops := s.loops.erase generation
        listeners := s.listeners.filter (·.generation ≠ generation)
        failed := s.failed ++ [generation] }
    else none
  | .record generation =>
    if generation ∈ s.failed then
      let s := { s with failed := s.failed.erase generation }
      -- a newer run has taken over unless the generation is the current one
      some (if s.generation ≠ generation then s
        else { s with lastErr := some .stopped, running := none })
    else none

end

/-- What is open is the listener that is running, unless its accept loop has failed. -/
structure Supervisor.Sound (s : Supervisor) : Prop where
  listeners : s.listeners = if s.generation ∈ s.failed then []
    else (s.running.map (Listener.mk s.generation)).toList
  started : ∀ g ∈ s.loops ++ s.failed, g ≤ s.generation

namespace Supervisor.Sound
variable {keypair : String → String → Bool} {s t : Supervisor} (sound : s.Sound) {g : Nat}
include sound

theorem mem {l : Listener} (open_ : l ∈ s.listeners) :
    s.generation ∉ s.failed ∧ l.generation = s.generation ∧ s.running = some l.config := by
  rw [sound.listeners] at open_
  split at open_
  · cases open_
  next alive =>
    obtain ⟨c, running, rfl⟩ := Option.map_eq_some_iff.mp (Option.mem_toList.mp open_)
    exact ⟨alive, rfl, running⟩

theorem next_alive : s.generation + 1 ∉ s.failed :=
  fun failed => absurd (sound.started _ (mem_append_right _ failed)) (Nat.not_succ_le_self _)

theorem err (e : Option SubmissionError) : { s with lastErr := e }.Sound :=
  ⟨sound.listeners, sound.started⟩

theorem filter_current : s.listeners.filter (·.generation ≠ s.generation) = [] :=
  filter_eq_nil_iff.mpr fun l open_ => by simp [(sound.mem open_).2.1]

theorem stop : s.stopLocked.Sound ∧ s.stopLocked.running = none ∧ s.stopLocked.listeners = [] := by
  rw [stopLocked]
  split
  next idle =>
    have none_ := Option.isNone_iff_eq_none.mp idle
    refine ⟨sound, none_, ?_⟩
    simpa [none_] using sound.listeners
  · refine ⟨⟨?_, fun g old => Nat.le_succ_of_le (sound.started g old)⟩, rfl, sound.filter_current⟩
    rw [sound.filter_current, if_neg sound.next_alive]
    rfl

theorem install (none_ : s.listeners = []) (cfg : Config) : (s.installLocked cfg).Sound := by
  constructor
  · refine Eq.trans ?_ (if_neg sound.next_alive).symm
    rw [installLocked, none_]
    rfl
  · intro g old
    simp only [installLocked, append_assoc, mem_append, mem_singleton] at old
    rcases old with loop | rfl | failed
    · exact Nat.le_succ_of_le (sound.started g (mem_append_left _ loop))
    · exact Nat.le_refl _
    · exact Nat.le_succ_of_le (sound.started g (mem_append_right _ failed))

theorem start (none_ : s.listeners = []) (cfg : Config) (bind : Bind) :
    (s.startLocked keypair cfg bind).1.Sound := by
  rw [startLocked]
  split
  · exact sound
  · exact sound.install none_ cfg

theorem restore (none_ : s.listeners = []) (previous : Option Config) (cause : SubmissionError)
    (bind : Bind) : (s.restoreLocked keypair previous cause bind).1.Sound := by
  rw [restoreLocked]
  split
  · exact sound
  next previous _ =>
    have started : (s.startLocked keypair previous bind).1.Sound := sound.start none_ previous bind
    split <;> rename_i is <;> rw [is] at started <;> exact started.err _

theorem apply (desired : Option Config) (bind restore : Bind) :
    (s.apply keypair desired bind restore).1.Sound := by
  obtain ⟨stopped, _, none_⟩ := sound.stop
  simp only [Supervisor.apply]
  split
  · exact sound
  split
  · exact sound.err none
  split
  · exact stopped.err none
  split
  · split
    · exact sound.err _
    · exact (stopped.install none_ _).err none
  · simp only [startLocked]
    cases s.stopLocked.bindLocked keypair (desired.getD .default) bind with
    | some err => exact (stopped.err (some err)).restore none_ s.running err restore
    | none => exact (stopped.install none_ _).err none

theorem filter_other (other : s.generation ≠ g) :
    s.listeners.filter (·.generation ≠ g) = s.listeners :=
  filter_eq_self.mpr fun _ open_ => decide_eq_true ((sound.mem open_).2.1 ▸ other)

theorem die (taken : s.step keypair (.die g) = some t) : t.Sound := by
  obtain ⟨loop, taken⟩ := Option.ite_none_right_eq_some.mp taken
  cases taken
  constructor
  · show s.listeners.filter (·.generation ≠ g) = _
    by_cases other : s.generation ≠ g
    · rw [sound.filter_other other, sound.listeners]
      simp [other]
    · obtain rfl := not_not.mp other
      rw [sound.filter_current, if_pos (by simp)]
  · intro x old
    simp only [mem_append, mem_singleton] at old
    rcases old with loops | failed | rfl
    · exact sound.started x (mem_append_left _ (mem_of_mem_erase loops))
    · exact sound.started x (mem_append_right _ failed)
    · exact sound.started x (mem_append_left _ loop)

theorem record (taken : s.step keypair (.record g) = some t) : t.Sound := by
  obtain ⟨failed, taken⟩ := Option.ite_none_right_eq_some.mp taken
  have started (x : Nat) (old : x ∈ s.loops ++ s.failed.erase g) : x ≤ s.generation := by
    refine sound.started x ((mem_append.mp old).elim (mem_append_left _) fun old => ?_)
    exact mem_append_right _ (mem_of_mem_erase old)
  dsimp only at taken
  split at taken <;> cases taken
  next other =>
    refine ⟨?_, started⟩
    simpa [mem_erase_of_ne other] using sound.listeners
  next current =>
    refine ⟨?_, started⟩
    show s.listeners = _
    rw [sound.listeners, if_pos (not_not.mp current ▸ failed)]
    split <;> rfl

theorem step {e : Event} (taken : s.step keypair e = some t) : t.Sound := by
  cases e with
  | apply desired bind restore =>
    cases taken
    exact sound.apply desired bind restore
  | close =>
    cases taken
    exact sound.stop.1
  | die => exact sound.die taken
  | record => exact sound.record taken

end Supervisor.Sound

section
variable {keypair : String → String → Bool} {events : List Event} {s : Supervisor} {desired : Config}

theorem sound_of_run (run : exec (Supervisor.step keypair) .init events = some s) : s.Sound :=
  invariant (Supervisor.step keypair) Supervisor.Sound (fun _ _ _ sound taken => sound.step taken)
    .init s events ⟨rfl, by simp [Supervisor.init]⟩ run

theorem bindLocked_eq (valid : desired.validate keypair = none) (enabled : desired.enabled = true)
    (bind : Bind) : s.bindLocked keypair desired bind =
      if bind (s.listeners.map (·.config.addr)) desired.addr then none
      else some (.cannotListen desired.addr) := by
  simp only [Config.validate, enabled] at valid
  rw [Supervisor.bindLocked, if_neg, if_neg] <;> grind

/-- Two addresses of one port where one is the wildcard, or that are the same. -/
def conflicts (a b : Addr) : Bool :=
  a.2 = b.2 && (a.1 = b.1 || a.1 = allInterfacesHost || b.1 = allInterfacesHost)

/-- The system, with the addresses that other processes hold. -/
def system (others : List Addr) : Bind := fun held addr =>
  (others ++ held).all fun a => !conflicts a addr

/-- What is running is as desired, and its listener is the one that is open. -/
def Supervisor.Serves (s : Supervisor) (desired : Config) : Prop :=
  ∃ c, s.running = some c ∧ c.serves desired = true ∧ s.listeners = [⟨s.generation, c⟩]

section
variable (sound : s.Sound) (valid : desired.validate keypair = none)
  (enabled : desired.enabled = true) {others : List Addr}
  (free : ∀ a ∈ others, a.2 ≠ desired.port)

include valid enabled free in
theorem bind_granted (apart : ∀ l ∈ s.listeners, l.config.port ≠ desired.port) :
    s.bindLocked keypair desired (system others) = none := by
  rw [bindLocked_eq valid enabled, if_pos]
  simp only [system, conflicts, all_eq_true, mem_append, mem_map]
  rintro a (other | ⟨l, open_, rfl⟩)
  · simp [free a other, Config.addr]
  · simp [apart l open_, Config.addr]

include valid enabled in
/-- Of two hosts on one port one is the wildcard. -/
theorem bind_refused {l : Listener} (open_ : l ∈ s.listeners) (port : l.config.port = desired.port)
    (host : l.config.host ≠ desired.host) :
    s.bindLocked keypair desired (system others) = some (.cannotListen desired.addr) := by
  have wildcard : l.config.host = allInterfacesHost ∨ desired.host = allInterfacesHost := by
    unfold Config.host at host ⊢
    grind
  rw [bindLocked_eq valid enabled, if_neg]
  simp only [system, all_eq_true, not_forall]
  refine ⟨l.config.addr, mem_append_right _ (mem_map_of_mem open_), ?_⟩
  rcases wildcard with one | other
  · simp [conflicts, Config.addr, port, one]
  · simp [conflicts, Config.addr, port, other]

include sound valid enabled in
/-- A configuration that is running already is served unless its accept loop has failed. -/
theorem apply_running_iff (bind restore : Bind) (matched : s.running.any (·.serves desired) = true) :
    ((s.apply keypair (some desired) bind restore).2 = none ∧
      (s.apply keypair (some desired) bind restore).1.Serves desired) ↔
        s.generation ∉ s.failed := by
  have done : s.apply keypair (some desired) bind restore = ({ s with lastErr := none }, none) := by
    simp [Supervisor.apply, valid, Supervisor.matchesRunningLocked, enabled, matched]
  obtain ⟨c, running, serves⟩ := (Option.any_eq_true ..).mp matched
  have listening := sound.listeners
  rw [running] at listening
  rw [done]
  constructor
  · rintro ⟨_, d, _, _, open_⟩ failed
    rw [if_pos failed] at listening
    cases listening.symm.trans open_
  · intro alive
    rw [if_neg alive] at listening
    exact ⟨rfl, c, running, serves, listening⟩

include sound valid enabled free in
theorem apply_other_iff (restore : Bind) (other : s.running.any (·.serves desired) = false) :
    ((s.apply keypair (some desired) (system others) restore).2 = none ∧
      (s.apply keypair (some desired) (system others) restore).1.Serves desired) ↔
        ∀ l ∈ s.listeners, l.config.port = desired.port → l.config.host = desired.host := by
  have none_ := sound.stop.2.2
  have served : (s.stopLocked.installLocked desired).Serves desired := by
    refine ⟨desired, rfl, by simp [Config.serves], ?_⟩
    simp [Supervisor.installLocked, none_]
  simp only [Supervisor.apply, Option.getD_some, valid, Supervisor.matchesRunningLocked, enabled,
    Bool.not_true, Bool.false_eq_true, if_false, other]
  constructor
  · rintro ⟨answered, _⟩ l open_ port
    refine Decidable.byContradiction fun host => ?_
    -- the addresses differ, so the new one is bound while the old one is held
    have moves : s.running.all (·.addr ≠ desired.addr) = true := by
      rw [(sound.mem open_).2.2]
      simp [Config.addr, host]
    rw [if_pos moves, bind_refused valid enabled open_ port host] at answered
    cases answered
  · intro host
    split
    next moves =>
      rw [bind_granted valid enabled free fun l open_ port => ?_]
      · exact ⟨rfl, served⟩
      · have running := (sound.mem open_).2.2
        rw [running, Option.all_some, decide_eq_true_eq] at moves
        exact moves (Prod.ext (host l open_ port) port)
    · rw [Supervisor.startLocked, bind_granted valid enabled free (by simp [none_])]
      exact ⟨rfl, served⟩

end

namespace Sample

def mailhost : Config := ⟨true, .loopback, 587, "", "", true⟩

def moved : Config := { mailhost with port := 588 }

def public_ : Config := ⟨true, .allInterfaces, 587, "cert", "key", false⟩

def pair (cert key : String) : Bool := cert = "cert" && key = "key"

def opens (c : Config) : Event := .apply (some c) (system []) (system [])

end Sample

open Sample

end

end Panmail.Smtp
