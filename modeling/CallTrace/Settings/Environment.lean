import CallTrace.Settings.Basic
import CallTrace.Text.Case
import CallTrace.Text.Decimal

/-! # Settings from the environment

Every setting has a variable whose name begins with `variableStem`.  A variable that is unset or
blank leaves the default.  Numbers and truth values are trimmed and put into lower case before they
are read, a log level is only put into lower case, and an address is taken as it stands.  A value
that cannot be read is an error that names the variable; of several the first in the order of the
settings is reported, and the settings are checked last. -/

namespace CallTrace

/-- What the variables are set to.  A value that is no text counts as unset. -/
abbrev Environment := String → Option String

namespace Environment

def variableStem : String := "TRACE_REDUCER_"

/-- The value of a variable that is set to more than white space. -/
def value? (env : Environment) (name : String) : Option String :=
  (env (variableStem ++ name)).filter fun v => !Text.isBlankText v

/-- A setting that is read from a trimmed text in lower case. -/
def setting {α : Type} (env : Environment) (name : String) (read : String → Option α)
    (default : α) : Except ConfigError α :=
  match env.value? name with
  | none => .ok default
  | some raw =>
    match read (Text.lower (Text.trim raw)) with
    | some v => .ok v
    | none =>
      .error (.invalid (variableStem ++ name ++ " has invalid value '" ++ raw ++ "'"))

/-- The digest of a name that is set. -/
def digestSetting (env : Environment) (default : Digest.Algorithm) :
    Except ConfigError Digest.Algorithm :=
  match env.value? "DIGEST_ALGORITHM" with
  | none => .ok default
  | some name => Digest.Algorithm.ofName name

end Environment

namespace Settings
open Environment Text

/-- All settings as the variables give them, not yet checked. -/
def read (env : Environment) : Except ConfigError Settings := do
  let d : Settings := {}
  let windowSize ← setting env "WINDOW_SIZE_MS" integer? d.windowSize
  let grace ← setting env "GRACE_MS" integer? d.grace
  let reductionDepth ← setting env "REDUCTION_DEPTH" integer? d.reductionDepth
  let maxRecordSize ← setting env "MAX_RECORD_SIZE" (natural? UInt64.size) d.maxRecordSize
  let partitions ← setting env "PARTITIONS" (natural? UInt64.size) d.partitions
  let discard ← setting env "DISCARD" truth? d.discard
  let digest ← digestSetting env d.digest
  let statusInterval ← setting env "STATUS_INTERVAL_SECS"
    (fun s => (natural? UInt64.size s).map (1000 * ·)) d.statusInterval
  let logLevel := ((env.value? "LOG_LEVEL").map lower).getD d.logLevel
  let listenAddress := (env.value? "LISTEN_ADDR").getD d.listenAddress
  return { windowSize, grace, reductionDepth, maxRecordSize, partitions, discard, digest,
           statusInterval, logLevel, listenAddress }

/-- The variables that are read, in the order of the settings. -/
def variableNames : List String :=
  ["WINDOW_SIZE_MS", "GRACE_MS", "REDUCTION_DEPTH", "MAX_RECORD_SIZE", "PARTITIONS", "DISCARD",
    "DIGEST_ALGORITHM", "STATUS_INTERVAL_SECS", "LOG_LEVEL", "LISTEN_ADDR"].map
    (variableStem ++ ·)

def ofEnvironment (env : Environment) : Except ConfigError Settings := do
  let settings ← read env
  settings.check
  return settings

/-- How a refused setting ends the program. -/
def refusal (e : ConfigError) : String := "invalid trace reducer configuration: " ++ e.message

end Settings
end CallTrace
