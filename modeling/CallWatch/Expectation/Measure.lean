import CallWatch.Tally

namespace CallWatch

-- The counter that an expectation bounds.
inductive Measure where
  | calls
  | rows
  | bytesDown
  | bytesUp
deriving DecidableEq

namespace Measure

def of : Measure → Tally → Count
  | .calls, t => t.calls
  | .rows, t => t.rows
  | .bytesDown, t => t.bytesDown
  | .bytesUp, t => t.bytesUp

def display : Measure → String
  | .calls => "invocations"
  | .rows => "rows"
  | .bytesDown => "bytes down"
  | .bytesUp => "bytes up"

end Measure

end CallWatch
