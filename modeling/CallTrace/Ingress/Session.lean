import CallTrace.Ingress.Connection

/-! # Sessions

A session is the life of a pipeline with one connection: the pipeline starts with an empty store,
takes what the connection brings, works it off, and is shut down. -/

namespace CallTrace.Ingress

/-- The pipeline after a session. -/
def session (settings : Settings) (bytes : Bytes) : Except ConfigError (Pipeline Store) := do
  let p ← Pipeline.start settings ({} : Store)
  let (_, p) := (read bytes p).settle.shutdown
  return p.settle

/-- The log of a session, from the level on that the settings ask for. -/
def sessionLog (settings : Settings) (bytes : Bytes) : Except ConfigError (List LogLine) := do
  let p ← session settings bytes
  return p.shared.log.filter (LogLine.isShown ((LogLevel.ofName? settings.logLevel).getD .info))

end CallTrace.Ingress
