/-! # Log entries

What the tools tell about their progress, each entry with its level.  A quiet tool shows warnings alone; a talkative
one shows everything, each entry after its level.
-/
namespace HackToolchain

inductive Level where
  | debug | info | warning
  deriving DecidableEq, Repr

def Level.name : Level → String
  | .debug => "DEBUG"
  | .info => "INFO"
  | .warning => "WARNING"

structure LogEntry where
  level : Level
  message : String
  deriving DecidableEq, Repr

abbrev Log := List LogEntry

def LogEntry.shown (isVerbose : Bool) (entry : LogEntry) : Option String :=
  if isVerbose then some s!"{entry.level.name}: {entry.message}\n"
  else if entry.level = .warning then some s!"{entry.message}\n"
  else none

def Log.shown (isVerbose : Bool) (log : Log) : String := "".intercalate (log.filterMap (·.shown isVerbose))

end HackToolchain
