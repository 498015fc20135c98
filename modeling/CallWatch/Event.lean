namespace CallWatch

inductive Event.Level where
  | trace
  | debug
  | info
  | warn
  | error
deriving DecidableEq

-- One record of the activity log. Fields are named texts.
structure Event where
  level : Event.Level
  message : String
  fields : List (String × String)
deriving DecidableEq

namespace Event

def Level.name : Level → String
  | .trace => "TRACE"
  | .debug => "DEBUG"
  | .info => "INFO"
  | .warn => "WARN"
  | .error => "ERROR"

end Event

end CallWatch
