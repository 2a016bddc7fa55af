/-!
# Incidents

Whatever the compiler has to tell its user, be it an error that stops it or a
remark about one block, is an incident: a level, a message, the part of the
compiler that issues it and, where there is one, the key of the block concerned.
-/

namespace BlockCompiler

/-- How serious an incident is. -/
inductive Level where
  | info
  | warning
  | error
  | critical
deriving DecidableEq, Repr

namespace Level

/-- The level as it stands in reports. -/
def label : Level → String
  | info => "INFO"
  | warning => "WARNING"
  | error => "ERROR"
  | critical => "CRITICAL"

/-- The level as it stands in exchanged data. -/
def name : Level → String
  | info => "Info"
  | warning => "Warning"
  | error => "Error"
  | critical => "Critical"

/-- The level of a name. -/
def ofName? : String → Option Level
  | "Info" => some info
  | "Warning" => some warning
  | "Error" => some error
  | "Critical" => some critical
  | _ => none

/-- The level counts as a failure. -/
def isFailure : Level → Bool
  | error | critical => true
  | info | warning => false

theorem ofName?_name (l : Level) : ofName? l.name = some l := by
  cases l <;> rfl

end Level

/-- What every error and diagnostic says about itself. -/
structure Incident where
  level : Level
  message : String
  issuer : String
  /-- The key of the block concerned. -/
  node : Option String
deriving DecidableEq, Repr

namespace Incident

/-- The line shown to users. -/
def report (i : Incident) : String :=
  "BLOCKFORGE | " ++ i.level.label ++ " | " ++ i.node.getD "no node" ++ " | " ++ i.message

/-- The line shown to maintainers, with the issuer. -/
def trace (i : Incident) : String :=
  "BLOCKFORGE | " ++ i.level.label ++ " | " ++ i.node.getD "node:none" ++ " | " ++ i.issuer ++
    " | " ++ i.message

end Incident

end BlockCompiler
