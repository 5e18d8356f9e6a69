import Statechart.Yaml.Reader
import Statechart.Yaml.Writer

/- Settings of sessions and their router: defaults, a YAML file, and environment variables, later
   ones going before earlier ones. -/
namespace Statechart

structure Settings where
  /-- How long a session waits before it is suspended; zero for ever. -/
  idleTimeoutMs : Nat := 300000
  maxMicrosteps : Nat := 1000
  tracing : Bool := false
  throwOnError : Bool := false
  snapshotDir : Option String := none
  /-- How many waiting events give rise to a warning; zero for none. -/
  mailboxWarnDepth : Nat := 10000
deriving DecidableEq, Repr

inductive SettingsError where
  | io (path : String)
  | parse (path : String)
  | validation (reason : String)
deriving DecidableEq, Repr

def SettingsError.message : SettingsError → String
  | .io path => "failed to read config file '" ++ path ++ "'"
  | .parse path => "failed to parse config file '" ++ path ++ "'"
  | .validation reason => "configuration validation failed: " ++ reason

abbrev Environment := List (String × String)

namespace Settings

def validate (s : Settings) : Except SettingsError Unit :=
  if s.maxMicrosteps = 0 then .error (.validation "session.max_microsteps must be at least 1")
  else .ok ()

def idleTimeout? (s : Settings) : Option Nat :=
  if s.idleTimeoutMs = 0 then none else some s.idleTimeoutMs

def readSession (s : Settings) (p : Place) : ReadM Settings := do
  let fields ← p.fields
  let idleTimeoutMs ← fields.defaulted Place.nat s.idleTimeoutMs "idle_timeout_ms"
  let maxMicrosteps ← fields.defaulted Place.nat s.maxMicrosteps "max_microsteps"
  let tracing ← fields.defaulted Place.flag s.tracing "tracing_enabled"
  let throwOnError ← fields.defaulted Place.flag s.throwOnError "throw_on_error"
  let snapshotDir ← fields.optional Place.text "snapshot_dir"
  return { s with idleTimeoutMs, maxMicrosteps, tracing, throwOnError, snapshotDir }

def readRouter (s : Settings) (p : Place) : ReadM Settings := do
  let fields ← p.fields
  let depth ← fields.defaulted Place.nat s.mailboxWarnDepth "mailbox_warn_depth"
  return { s with mailboxWarnDepth := depth }

def read (defaults : Settings) (p : Place) : ReadM Settings := do
  let fields ← p.fields
  let s ← fields.defaulted (readSession defaults) defaults "session"
  fields.defaulted (readRouter s) s "router"

def ofFile (path : String) : Option String → Except SettingsError Settings
  | none => .error (.io path)
  | some text =>
    match (Yaml.manuscript? text).bind (·.read (read {})) with
    | some s => .ok s
    | none => .error (.parse path)

def variableName (setting : String) : String := "RSCX_" ++ setting

def isOn (text : String) : Bool := text == "1" || text.toLower == "true"

/-- Environment variables go before other settings; numbers that are none are passed over. -/
def override (s : Settings) (env : Environment) : Settings :=
  let number (name : String) (fallback : Nat) : Nat :=
    ((env.lookup (variableName name)).bind Decimal.readWord).getD fallback
  let switch (name : String) (fallback : Bool) : Bool :=
    ((env.lookup (variableName name)).map isOn).getD fallback
  { idleTimeoutMs := number "IDLE_TIMEOUT_MS" s.idleTimeoutMs
    maxMicrosteps := number "MAX_MICROSTEPS" s.maxMicrosteps
    tracing := switch "TRACING" s.tracing
    throwOnError := switch "THROW_ON_ERROR" s.throwOnError
    snapshotDir := (env.lookup (variableName "SNAPSHOT_DIR")).or s.snapshotDir
    mailboxWarnDepth := number "MAILBOX_WARN_DEPTH" s.mailboxWarnDepth }

def fileVariable : String := variableName "CONFIG"

def environmentNames : List String :=
  fileVariable :: ["IDLE_TIMEOUT_MS", "MAX_MICROSTEPS", "TRACING", "THROW_ON_ERROR", "SNAPSHOT_DIR",
    "MAILBOX_WARN_DEPTH"].map variableName

def load (file : Option (String × Option String)) (env : Environment) :
    Except SettingsError Settings := do
  let s ← match file with
    | some (path, content) => ofFile path content
    | none => pure {}
  let s := s.override env
  s.validate
  return s

def text (s : Settings) : String :=
  let flag (b : Bool) : String := if b then "true" else "false"
  let dir := match s.snapshotDir with
    | some dir => Yaml.writeText "    " dir
    | none => "null\n"
  "session:\n"
    ++ "  idle_timeout_ms: " ++ toString s.idleTimeoutMs ++ "\n"
    ++ "  max_microsteps: " ++ toString s.maxMicrosteps ++ "\n"
    ++ "  tracing_enabled: " ++ flag s.tracing ++ "\n"
    ++ "  throw_on_error: " ++ flag s.throwOnError ++ "\n"
    ++ "  snapshot_dir: " ++ dir
    ++ "router:\n"
    ++ "  mailbox_warn_depth: " ++ toString s.mailboxWarnDepth ++ "\n"

end Settings

end Statechart
