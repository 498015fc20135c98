import CallWatch.Session.Names
import CallWatch.Tap
import CallWatch.Window.Verify

namespace CallWatch

-- Which ledger a window looks at: the tap's, or the one of the session.
inductive Session.Source where
  | tap
  | side
deriving DecidableEq

structure Session.Watched where
  window : Window
  source : Session.Source

-- A session drives one tap. It may keep a ledger of its own beside the tap's. Every
-- window that was ever opened stays in its place, known by its number. A window is
-- held by its name, and by the guards that are running on it.
structure Session where
  tap : Tap
  side : Option Ledger
  windows : List Session.Watched
  windowNames : Session.Names Nat
  guarded : List Nat
  scopeNames : Session.Names Nat
  summaries : Session.Names Summary
  marks : Session.Names Marks

namespace Session

def start (config : Config) (side : Option Ledger) (keeper : Option (Nat → Option String)) :
    Session :=
  let registry := match keeper with
    | some answer => Fault.Registry.empty.setKeeper answer
    | none => .empty
  ⟨.create config registry, side, [], [], [], [], [], []⟩

-- The ledger that a source names.
def ledgerOf (s : Session) : Source → Ledger
  | .tap => s.tap.ledger
  | .side => s.side.getD s.tap.ledger

-- The ledger that the session's own steps record into and read.
def ledger (s : Session) : Ledger :=
  s.ledgerOf .side

def updateLedger (s : Session) (f : Ledger → Ledger) : Session :=
  match s.side with
  | some ledger => { s with side := some (f ledger) }
  | none => { s with tap := { s.tap with ledger := f s.tap.ledger } }

def updateTraffic (s : Session) (f : Traffic → Traffic) : Session :=
  { s with tap := { s.tap with traffic := f s.tap.traffic } }

def setRegistry (s : Session) (registry : Fault.Registry) : Session :=
  { s with tap := { s.tap with registry } }

def watched? (s : Session) (number : Nat) : Option Watched :=
  s.windows[number]?

def setWindow (s : Session) (number : Nat) (window : Window) : Session :=
  { s with windows := s.windows.modify number fun w => { w with window } }

-- Whether a window still has its name, or a guard is running on it.
def isHeld (s : Session) (number : Nat) : Bool :=
  s.windowNames.any (·.2 = number) || s.guarded.contains number

-- What verification of a window finds at this moment.
def verify (s : Session) (w : Watched) : Option WindowError :=
  w.window.verifyAll (s.ledgerOf w.source)

end Session

end CallWatch
