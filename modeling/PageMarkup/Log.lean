namespace PageMarkup

namespace Log

inductive Level where
  | error
  | warn
  | info
  | debug
  | trace
  deriving DecidableEq, Repr

namespace Level

def all : List Level := [.error, .warn, .info, .debug, .trace]

def name : Level → String
  | .error => "error"
  | .warn => "warn"
  | .info => "info"
  | .debug => "debug"
  | .trace => "trace"

def label : Level → String
  | .error => "ERROR"
  | .warn => "WARN "
  | .info => "INFO "
  | .debug => "DEBUG"
  | .trace => "TRACE"

def detail : Level → Nat
  | .error => 1
  | .warn => 2
  | .info => 3
  | .debug => 4
  | .trace => 5

end Level

abbrev Threshold : Type := Nat

/-- The threshold that a word sets, in any case: a level, or nothing for `off`. No word at all stands
    for errors only. -/
def thresholdOf (word : String) : Threshold :=
  if word.isEmpty then Level.error.detail
  else
    match Level.all.find? (·.name == word.toLower) with
    | some level => level.detail
    | none => 0

structure Record where
  level : Level
  target : String
  message : String
  deriving DecidableEq, Repr

namespace Record

def line (record : Record) : String :=
  "[" ++ record.level.label ++ " " ++ record.target ++ "] " ++ record.message ++ "\n"

end Record

def printed (threshold : Threshold) (records : List Record) : String :=
  .join ((records.filter fun record => decide (record.level.detail ≤ threshold)).map Record.line)

end Log

end PageMarkup
