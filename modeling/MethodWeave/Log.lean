/-!
A log: lines of text, each with a level, of which a limit keeps only the more important ones.
-/

namespace MethodWeave

/-- How important a line is, the most important level first. -/
inductive Level where
  | error | warn | info | debug | trace
deriving DecidableEq, Repr, Inhabited

namespace Level

/-- Place of a level in the order of importance, counted from one. -/
def rank : Level → Nat
  | .error => 1
  | .warn => 2
  | .info => 3
  | .debug => 4
  | .trace => 5

def text : Level → String
  | .error => "ERROR"
  | .warn => "WARN"
  | .info => "INFO"
  | .debug => "DEBUG"
  | .trace => "TRACE"

/-- The levels, the most important first. -/
def all : List Level := [.error, .warn, .info, .debug, .trace]

/-- The level of a name in letters of either case. -/
def ofName? (name : String) : Option Level := all.find? fun l => l.text == name.toUpper

end Level

/-- The lines kept so far, in order. -/
structure Log where
  /-- The least important level that is kept; without a limit nothing is. -/
  limit : Option Level := none
  lines : Array (Level × String) := #[]
deriving Inhabited

namespace Log

/-- Are lines of this level kept? -/
def keeps (log : Log) (level : Level) : Bool :=
  match log.limit with
  | none => false
  | some limit => level.rank ≤ limit.rank

/-- Add a line if its level is kept.  The text is not built otherwise. -/
def write (log : Log) (level : Level) (line : Unit → String) : Log :=
  if log.keeps level then { log with lines := log.lines.push (level, line ()) } else log

/-- The lines as they are shown, each behind its level. -/
def texts (log : Log) : List String :=
  log.lines.toList.map fun (level, line) => level.text ++ " " ++ line

end Log

end MethodWeave
