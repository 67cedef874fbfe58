import CallTrace.Digest.Signature
import CallTrace.Log
import CallTrace.Window.Basic

/-! # Settings

How a pipeline is set up.  `Settings.check` refuses values that make no sense, the windows'
settings first; settings that pass start without an error. -/

namespace CallTrace

structure Settings where
  windowSize : Int64 := 10000
  grace : Int64 := 2000
  /-- The deepest level that reduction keeps. -/
  reductionDepth : Int64 := 10
  maxRecordSize : Nat := 10 * 1024 * 1024
  partitions : Nat := 4
  /-- Whether spans are only counted. -/
  discard : Bool := false
  digest : Digest.Algorithm := .sha3
  /-- Milliseconds between two status reports. -/
  statusInterval : Nat := 10000
  logLevel : String := "info"
  listenAddress : String := "0.0.0.0:4318"
deriving DecidableEq, Repr

namespace Settings

def windows (s : Settings) : WindowConfig where
  size := s.windowSize
  grace := s.grace
  maxRecordSize := s.maxRecordSize

def check (s : Settings) : Except ConfigError Unit := do
  s.windows.check
  if s.reductionDepth < 0 then throw (.negativeDepthLimit s.reductionDepth)
  if s.partitions = 0 then throw (.invalid "partition count must be greater than 0")
  if s.statusInterval = 0 then throw (.invalid "status interval must be greater than 0")
  if (LogLevel.ofName? s.logLevel).isNone then
    throw (.invalid ("Invalid log level '" ++ s.logLevel
      ++ "'. Must be one of: trace, debug, info, warn, error"))

end Settings
end CallTrace
