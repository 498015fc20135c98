import CallWatch.Expectation.Bounds
import CallWatch.Expectation.Measure
import CallWatch.Filter.Endpoint
import CallWatch.Filter.Threads

namespace CallWatch

-- Bounds on what a window has seen. Without a thread scope the window's own applies.
structure Expectation where
  threads : Option ThreadScope
  endpoint : EndpointFilter
  bounds : List (Measure × Bounds)
deriving DecidableEq

namespace Expectation

-- The first bound that a tally breaks, and by what.
def firstBroken? (e : Expectation) (total : Tally) : Option (Measure × Bounds) :=
  e.bounds.find? fun (measure, bounds) => !bounds.contains (measure.of total)

end Expectation

end CallWatch
