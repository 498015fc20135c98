import CallWatch.Expectation.Draft
import CallWatch.Fault.Attempt
import CallWatch.Key
import CallWatch.Tap
import CallWatch.Window.Guard

namespace CallWatch.Session

-- The steps of a session, by the part that they are about.

inductive Inspecting where
  | origin (thread : Thread) (here : CallSite)
  | sameKey (a b : Key)
  | coarsen (key : Key) (detail : Detail)
  | belongs (origin : Origin) (owner : Nat)

inductive Recording where
  | statement (sql : String) (origin : Origin) (elapsed : Span) (rows : Count)
  | transfer (socket : Socket) (origin : Origin) (direction : Direction) (time : Int64)
      (bytes : List UInt8)
  | record (key : Key) (amount : Tally)
  | capture (key : Key) (direction : Direction) (time : Int64) (bytes : List UInt8)
  | resetTap
  | resetLedger
  | resetTraffic

inductive Reading where
  | amountOf (key : Key)
  | size
  | lines
  | summarize (filter : EndpointFilter) (detail : Detail) (keepAs : Option String)
  | showSummary (name : String)
  | mergeInto (name : String) (key : Key) (amount : Tally)
  | amountIn (name : String) (key : Key)
  | keysOf (name : String)
  | sameSummaries (a b : String)
  | mark (name : String)
  | trafficIsEmpty
  | packets (filter : EndpointFilter) (detail : Detail) (since : Option String)
      (threshold : Span)

-- An expectation comes as it was built. If that failed, the window is not touched.
abbrev Wanted :=
  Except Misconfiguration Expectation

inductive Watching where
  | expect (wanted : Wanted)
  | verifyOne (wanted : Wanted)
  | verify
  | restart
  | close (site : String)
  | isClosed
  | diff (scope : ThreadScope) (filter : EndpointFilter) (detail : Detail)
  | totals (scope : ThreadScope) (filter : EndpointFilter)
  | count (scope : ThreadScope) (filter : EndpointFilter) (measure : Measure)
  | packets (scope : ThreadScope) (filter : EndpointFilter) (detail : Detail)

inductive Faulting where
  | newScope (name : String)
  | dropScope (name : String)
  | setSocket (pattern : Fault.SocketPattern) (status : Fault.Status) (scope : Option String)
  | setSource (pattern : Fault.SourcePattern) (status : Fault.Status) (scope : Option String)
  | resolveSocket (socket : Socket) (scope : Option String)
  | resolveSource (source : Fault.DataSource) (scope : Option String)
  | findSocket (socket : Socket) (scope : Option String)
  | findSource (source : Fault.DataSource) (scope : Option String)
  | socketRules (scope : Option String)
  | sourceRules (scope : Option String)
  | isEmpty (scope : Option String)
  | clear (scope : Option String)
  | flags
  | setPersistent (persistent : Bool)
  | setThreadLocal (threadLocal : Bool)
  | setKeeper (answer : Nat → Option String)
  | write
  | read (text : String)
  | load (document : Fault.Document)
  | connect (target : Fault.Destination) (scope : Option String) (i : Fault.Interruption)

inductive Action where
  | inspecting (i : Inspecting)
  | recording (r : Recording)
  | reading (r : Reading)
  | openWindow (name : String) (owner : Nat) (wanted : Option Wanted)
  | dropWindow (name : String)
  | watching (name : String) (w : Watching)
  | faulting (f : Faulting)

-- A step is an action, or a callback that a window guards: further steps and how
-- they end.
inductive Step (α : Type) where
  | act (action : Action)
  | guarded (guard : Guard) (window : String) (body : List (Step α)) (ending : Ending α)

end CallWatch.Session
