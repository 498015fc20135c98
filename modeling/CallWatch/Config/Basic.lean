import CallWatch.Filter.Threads
import CallWatch.Span

namespace CallWatch

-- What recording, windows and fault rules are set to.
structure Config where
  -- whether a recorded call keeps its call site
  captureSite : Bool
  -- whether the bytes of socket transfers are kept
  captureTraffic : Bool
  -- the longest gap between two transfers that are shown as one packet
  mergeWithin : Span
  -- the scope of expectations that do not name one
  threads : ThreadScope
  -- whether scoped fault rules are consulted before the global ones
  threadLocalFaults : Bool
  -- whether the fault registry is saved on every change
  persistFaults : Bool
deriving DecidableEq

namespace Config

def defaultMerge : Span :=
  ⟨500 * Span.perMilli, by decide⟩

def standard : Config :=
  ⟨false, false, defaultMerge, .current, false, false⟩

instance : Inhabited Config :=
  ⟨standard⟩

-- Settings of a configuration, each of which may be left as it is.
structure Overrides where
  captureSite : Option Bool
  captureTraffic : Option Bool
  mergeWithin : Option Span
  threads : Option ThreadScope
  threadLocalFaults : Option Bool
  persistFaults : Option Bool

def override (c : Config) (o : Overrides) : Config where
  captureSite := o.captureSite.getD c.captureSite
  captureTraffic := o.captureTraffic.getD c.captureTraffic
  mergeWithin := o.mergeWithin.getD c.mergeWithin
  threads := o.threads.getD c.threads
  threadLocalFaults := o.threadLocalFaults.getD c.threadLocalFaults
  persistFaults := o.persistFaults.getD c.persistFaults

end Config

end CallWatch
