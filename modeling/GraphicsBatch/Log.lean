/-! # The log -/

namespace GraphicsBatch

inductive Level where
  | debug | info | warning | error
deriving DecidableEq, Inhabited

namespace Level

def rank : Level → Nat
  | debug => 10
  | info => 20
  | warning => 30
  | error => 40

def name : Level → String
  | debug => "DEBUG"
  | info => "INFO"
  | warning => "WARNING"
  | error => "ERROR"

end Level

structure Record where
  level : Level
  message : String
deriving DecidableEq, Inhabited

/-- What has been logged. Records below the threshold are not kept. -/
structure Log where
  threshold : Level := .info
  records : Array Record := #[]
deriving Inhabited

def Log.add (log : Log) (r : Record) : Log :=
  if log.threshold.rank ≤ r.level.rank then { log with records := log.records.push r } else log

end GraphicsBatch
