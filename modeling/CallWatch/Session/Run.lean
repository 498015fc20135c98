import CallWatch.Json.Format.Document
import CallWatch.Key.Listing
import CallWatch.Session.Action
import CallWatch.Session.Report
import CallWatch.Session.State

namespace CallWatch.Session

open CallWatch.Fault (Effects)

-- A result that leaves nothing in the log.
def quiet (s : Session) (reply : Reply) : Session × Reply × Effects :=
  (s, reply, .none)

def logged (s : Session) (reply : Reply) (events : List Event) : Session × Reply × Effects :=
  (s, reply, ⟨events, []⟩)

def inspect (s : Session) : Inspecting → Reply
  | .origin thread here => .origin (s.tap.origin thread here)
  | .sameKey a b => .same (a == b)
  | .coarsen key detail => .coarsened (key.coarsen detail) detail.isFull
  | .belongs origin owner =>
      .belongs (origin.isThread owner) (ThreadScope.all.map (·.accepts origin owner))

def performRecording (s : Session) : Recording → Session × Reply × Effects
  | .statement sql origin elapsed rows =>
      let (tap, events) := s.tap.recordStatement sql origin elapsed rows
      logged { s with tap } .done events
  | .transfer socket origin direction time bytes =>
      let (tap, events) := s.tap.recordTransfer socket origin direction time bytes
      logged { s with tap } .done events
  | .record key amount => quiet (s.updateLedger (·.record key amount)) .done
  | .capture key direction time bytes =>
      quiet (s.updateTraffic (·.capture key direction time bytes)) .done
  | .resetTap =>
      let (tap, events) := s.tap.reset
      logged { s with tap } .done events
  | .resetLedger => logged (s.updateLedger (·.clear)) .done [Tap.ledgerReset]
  | .resetTraffic => quiet (s.updateTraffic fun _ => .empty) .done

def keepSummary (s : Session) (name : String) (summary : Summary) : Session :=
  { s with summaries := s.summaries.bind name summary }

-- A summary that was not kept before is empty.
def keptSummary (s : Session) (name : String) : Summary :=
  (s.summaries.get? name).getD .empty

def performReading (s : Session) : Reading → Session × Reply × Effects
  | .amountOf key => quiet s (.amount (s.ledger.amountOf? key))
  | .size => quiet s (.size s.ledger.size s.ledger.isEmpty)
  | .lines =>
      quiet s (.lines (Key.listed (s.ledger.entries.map fun e => (e.key, e.amount))))
  | .summarize filter detail keepAs =>
      let summary := s.ledger.summary (fun key => filter.accepts key.endpoint) detail
      let s := match keepAs with
        | some name => s.keepSummary name summary
        | none => s
      quiet s (.summary summary)
  | .showSummary name => quiet s (.summary (s.keptSummary name))
  | .mergeInto name key amount =>
      let summary := (s.keptSummary name).merge key amount
      quiet (s.keepSummary name summary) (.summary summary)
  | .amountIn name key => quiet s (.amount ((s.keptSummary name).get? key))
  | .keysOf name => quiet s (.keys (s.keptSummary name).keys)
  | .sameSummaries a b => quiet s (.same (s.keptSummary a == s.keptSummary b))
  | .mark name =>
      let marks := s.tap.traffic.marks
      quiet { s with marks := s.marks.bind name marks } (.marks (Key.listed marks))
  | .trafficIsEmpty => quiet s (.isEmpty s.tap.traffic.isEmpty)
  | .packets filter detail since threshold =>
      let marks := (since.bind s.marks.get?).getD []
      quiet s (.streams
        (s.tap.traffic.packets (fun key => filter.accepts key.endpoint) detail marks threshold))

def unfinished (pending : Nat) : Event :=
  ⟨.warn, "spy dropped without being closed", [("expectations", Text.showNat pending)]⟩

-- A window that is let go of while it is open and expects something is logged.
def farewell (w : Window) : List Event :=
  if w.isClosed || w.expectations.isEmpty then [] else [unfinished w.expectations.length]

-- The events of a window that lost a holder, in the session after the loss.
def letGo (s : Session) (number : Nat) : List Event :=
  if s.isHeld number then []
  else match s.watched? number with
    | some w => farewell w.window
    | none => []

-- Changes what a name stands for, with the events of the window that had it.
def renamed (s : Session) (name : String) (names : Names Nat) : Session × List Event :=
  let after := { s with windowNames := names }
  (after, ((s.windowNames.get? name).map after.letGo).getD [])

def addWindow (s : Session) (name : String) (owner : Nat) (source : Source)
    (expectations : List Expectation) : Session × Reply × Effects :=
  let window := { Window.openOn s.tap.config owner (s.ledgerOf source) s.tap.traffic with
    expectations }
  let opened : Session := { s with windows := s.windows ++ [⟨window, source⟩] }
  let (s, events) := opened.renamed name (s.windowNames.bind name s.windows.length)
  logged s (.opened owner window.threads) events

-- A window with an expectation looks at the tap, another one at the session's ledger.
def openWindow (s : Session) (name : String) (owner : Nat) :
    Option Wanted → Session × Reply × Effects
  | none => s.addWindow name owner .side []
  | some (.ok e) => s.addWindow name owner .tap [e]
  | some (.error cause) => quiet s (.failed (.misconfigured cause))

def dropWindow (s : Session) (name : String) : Session × Reply × Effects :=
  match s.windowNames.get? name with
  | some _ =>
      let (s, events) := s.renamed name (s.windowNames.unbind name)
      logged s (.dropped true) events
  | none => quiet s (.dropped false)

def replyOf : Except WindowError Reply → Reply
  | .ok reply => reply
  | .error error => .failed error

def verified : Option WindowError → Reply
  | some error => .failed error
  | none => .done

-- What is asked of a window, and the window afterwards.
def watch (s : Session) (w : Watched) : Watching → Window × Reply
  | .expect (.error cause) | .verifyOne (.error cause) =>
      (w.window, .failed (.misconfigured cause))
  | .expect (.ok e) =>
      match w.window.whenOpen () with
      | .ok () => (w.window.expect e, .done)
      | .error error => (w.window, .failed error)
  | .verifyOne (.ok e) =>
      (w.window, replyOf (w.window.whenOpen (verified
        ((w.window.check (s.ledgerOf w.source) e).map fun f => .verification ⟨f, none⟩))))
  | .verify => (w.window, replyOf (w.window.whenOpen (verified (s.verify w))))
  | .restart =>
      match w.window.whenOpen () with
      | .ok () => (w.window.restart (s.ledgerOf w.source) s.tap.traffic, .done)
      | .error error => (w.window, .failed error)
  | .close site =>
      let (window, result) := w.window.close (s.ledgerOf w.source) site
      (window, replyOf (result.map fun _ => .done))
  | .isClosed => (w.window, .closed w.window.isClosed)
  | .diff scope filter detail =>
      (w.window, replyOf (w.window.whenOpen
        (.summary (w.window.diff (s.ledgerOf w.source) scope filter detail))))
  | .totals scope filter =>
      (w.window, replyOf (w.window.whenOpen
        (.total (w.window.totals (s.ledgerOf w.source) scope filter))))
  | .count scope filter measure =>
      (w.window, replyOf (w.window.whenOpen
        (.count (measure.of (w.window.totals (s.ledgerOf w.source) scope filter)))))
  | .packets scope filter detail =>
      (w.window, replyOf (w.window.whenOpen
        (.streams (w.window.packets s.tap.traffic scope filter detail))))

def performWatching (s : Session) (name : String) (w : Watching) : Session × Reply × Effects :=
  match s.windowNames.get? name with
  | none => quiet s (.unknown name)
  | some number =>
      match s.watched? number with
      | none => quiet s (.unknown name)
      | some watched =>
          let (window, reply) := s.watch watched w
          quiet (s.setWindow number window) reply

def setScopeName (s : Session) (name : String) (scope : Nat) : Session :=
  { s with scopeNames := s.scopeNames.bind name scope }

-- The number of the scope that a step names, if it names one.
def scopeOf (s : Session) (scope : Option String) : Option Nat :=
  scope.bind s.scopeNames.get?

def registry (s : Session) : Fault.Registry :=
  s.tap.registry

-- A name given to a new scope lets go of the one that had it.
def newScope (s : Session) (name : String) : Session × Reply × Effects :=
  let (registry, scope) := s.registry.newScope
  let registry := match s.scopeNames.get? name with
    | some old => registry.dropScope old
    | none => registry
  quiet ((s.setRegistry registry).setScopeName name scope) (.isEmpty true)

def dropScope (s : Session) (name : String) : Session × Reply × Effects :=
  match s.scopeNames.get? name with
  | some scope =>
      quiet { s.setRegistry (s.registry.dropScope scope) with
        scopeNames := s.scopeNames.unbind name } (.dropped true)
  | none => quiet s (.dropped false)

-- Changes the table of a scope, or the registry itself if none is named.
def changeTable (s : Session) (scope : Option String) (f : Fault.Table → Fault.Table)
    (g : Fault.Registry → Fault.Registry × Effects) : Session × Reply × Effects :=
  match s.scopeOf scope with
  | some scope => quiet (s.setRegistry (s.registry.updateScope scope f)) .done
  | none =>
      let (registry, effects) := g s.registry
      (s.setRegistry registry, .done, effects)

def tableOf (s : Session) (scope : Option String) : Fault.Table :=
  s.registry.table (s.scopeOf scope)

def written (r : Fault.Registry) : Reply :=
  .written (Json.Format.document.toText r.document)

def performFaulting (s : Session) : Faulting → Session × Reply × Effects
  | .newScope name => s.newScope name
  | .dropScope name => s.dropScope name
  | .setSocket pattern status scope =>
      s.changeTable scope (·.setSocket pattern status) (·.setSocket pattern status)
  | .setSource pattern status scope =>
      s.changeTable scope (·.setSource pattern status) (·.setSource pattern status)
  | .resolveSocket socket scope =>
      let (status, registry, effects) := s.registry.resolveSocket socket (s.scopeOf scope)
      (s.setRegistry registry, .status status, effects)
  | .resolveSource source scope =>
      let (status, registry, effects) := s.registry.resolveSource source (s.scopeOf scope)
      (s.setRegistry registry, .status status, effects)
  | .findSocket socket scope => quiet s (.found ((s.tableOf scope).findSocket? socket))
  | .findSource source scope => quiet s (.found ((s.tableOf scope).findSource? source))
  | .socketRules scope => quiet s (.socketRules (s.tableOf scope).sockets)
  | .sourceRules scope => quiet s (.sourceRules (s.tableOf scope).sources)
  | .isEmpty scope => quiet s (.isEmpty (s.tableOf scope).isEmpty)
  | .clear scope => s.changeTable scope (fun _ => .empty) (·.clear)
  | .flags => quiet s (.flags s.registry.persistent s.registry.threadLocal)
  | .setPersistent persistent =>
      quiet (s.setRegistry (s.registry.setPersistent persistent)) .done
  | .setThreadLocal threadLocal =>
      quiet (s.setRegistry (s.registry.setThreadLocal threadLocal)) .done
  | .setKeeper answer => quiet (s.setRegistry (s.registry.setKeeper answer)) .done
  | .write => quiet s (written s.registry)
  | .read text =>
      match Json.Format.document.ofText text with
      | .ok document => quiet (s.setRegistry (s.registry.load document)) .done
      | .error defect => quiet s (.unreadable defect)
  | .load document =>
      let registry := s.registry.load document
      quiet (s.setRegistry registry) (written registry)
  | .connect target scope i =>
      let (attempt, registry, effects) := s.registry.connect target (s.scopeOf scope) i
      (s.setRegistry registry, .attempted attempt, effects)

def perform (s : Session) : Action → Session × Reply × Effects
  | .inspecting i => quiet s (s.inspect i)
  | .recording r => s.performRecording r
  | .reading r => s.performReading r
  | .openWindow name owner wanted => s.openWindow name owner wanted
  | .dropWindow name => s.dropWindow name
  | .watching name w => s.performWatching name w
  | .faulting f => s.performFaulting f

-- The window that a guard is about, open or not.
def guardedWindow? (s : Session) (name : String) : Option (Nat × Watched) :=
  (s.windowNames.get? name).bind fun number => (s.watched? number).map (number, ·)

-- The outcome of a guarded callback in the session as the callback left it.
def conclude {α : Type} (s : Session) (number : Nat) (guard : Guard) (ending : Ending α) :
    Outcome α × List Event :=
  guard.conclude ending ((s.watched? number).bind s.verify)

-- A guard holds its window while the callback runs.
def guarding (s : Session) (number : Nat) : Session :=
  { s with guarded := number :: s.guarded }

-- The session when a guard is done: only the guards around it are still running.
def unguarding (s : Session) (outer : List Nat) : Session :=
  { s with guarded := outer }

mutual

-- A closed window runs no callback. An open one runs it and then looks at its
-- expectations, whatever the callback did to the window. After that the guard lets
-- go of the window.
def run {α : Type} (s : Session) : Step α → Session × Report α
  | .act action =>
      let (s, reply, effects) := s.perform action
      (s, .plain reply effects)
  | .guarded guard name body ending =>
      match s.guardedWindow? name with
      | none => (s, .plain (.unknown name) .none)
      | some (number, w) =>
          match w.window.closedAt with
          | some site => (s, .guarded (.failed (.closed site)) [] .none)
          | none =>
              let (after, inner) := runAll (s.guarding number) body
              let (outcome, events) := after.conclude number guard ending
              let after := after.unguarding s.guarded
              (after, .guarded outcome inner ⟨events ++ after.letGo number, []⟩)

def runAll {α : Type} (s : Session) : List (Step α) → Session × List (Report α)
  | [] => (s, [])
  | step :: rest =>
      let (s, report) := run s step
      let (s, reports) := runAll s rest
      (s, report :: reports)

end

end CallWatch.Session
