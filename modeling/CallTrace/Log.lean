/-! # Log lines

Whatever the program does is reported as a list of log lines, in the order of what happened.  A
reader of the log may ask for the lines from some level on (`LogLine.isShown`). -/

namespace CallTrace

inductive LogLevel where
  | trace
  | debug
  | info
  | warn
  | error
deriving DecidableEq, Repr

def LogLevel.label : LogLevel → String
  | trace => "TRACE"
  | debug => "DEBUG"
  | info => "INFO"
  | warn => "WARN"
  | error => "ERROR"

namespace LogLevel

/-- All levels, the least severe first. -/
def all : List LogLevel := [trace, debug, info, warn, error]

/-- The level as a setting names it. -/
def name : LogLevel → String
  | trace => "trace"
  | debug => "debug"
  | info => "info"
  | warn => "warn"
  | error => "error"

def ofName? (s : String) : Option LogLevel := all.find? fun l => l.name = s

def severity : LogLevel → Nat
  | trace => 0
  | debug => 1
  | info => 2
  | warn => 3
  | error => 4

end LogLevel

structure LogLine where
  level : LogLevel
  text : String
deriving DecidableEq, Repr

namespace LogLine

def render (l : LogLine) : String := l.level.label ++ " " ++ l.text

/-- Whether a line is at least as severe as a level. -/
def isShown (threshold : LogLevel) (l : LogLine) : Bool := threshold.severity ≤ l.level.severity

end LogLine

end CallTrace
