import CallTrace.Ingress.Session
import CallTrace.Settings.Environment

/-! # The command line

Takes its settings from the environment and its records, a line each, from standard input, and
writes the log to standard output.  Settings that are refused end it with exit code 1. -/

namespace CallTrace

/-- The environment of the process. -/
def processEnvironment : IO Environment := do
  let set ← Settings.variableNames.mapM fun name => do return (name, ← IO.getEnv name)
  return fun name => (set.lookup name).join

/-- Reads a stream to its end. -/
partial def readAll (input : IO.FS.Stream) (begun : ByteArray) : IO ByteArray := do
  let more ← input.read 65536
  if more.isEmpty then return begun else readAll input (begun ++ more)

/-- Reports a refused setting. -/
def refuse (e : ConfigError) : IO UInt32 := do
  IO.eprintln (Settings.refusal e)
  return 1

end CallTrace

open CallTrace in
def main : IO UInt32 := do
  match Settings.ofEnvironment (← processEnvironment) with
  | .error e => refuse e
  | .ok settings =>
    match Ingress.sessionLog settings (← readAll (← IO.getStdin) .empty).toList with
    | .error e => refuse e
    | .ok log =>
      for line in log do IO.println line.render
      return 0
