import CallWatch.Statement
import CallWatch.Text.Numeral

namespace CallWatch

-- A socket endpoint. Connections to one address are told apart by a number, which
-- is -1 where they are counted together. The address that the host resolved to is
-- kept when it is known.
structure Socket where
  host : String
  port : UInt16
  connection : Int32
  resolved : Option String
deriving DecidableEq, Hashable

namespace Socket

def isHost (s : Socket) (name : String) : Bool :=
  s.host = name || s.resolved = some name

def address (s : Socket) : String :=
  s.host ++ ":" ++ Text.showNat s.port.toNat

def display (s : Socket) : String :=
  if 0 ≤ s.connection.toInt then s.address ++ "#" ++ Text.showInt s.connection.toInt
  else s.address

def anyConnection (s : Socket) : Socket :=
  { s with connection := -1 }

end Socket

inductive Endpoint where
  | socket (socket : Socket)
  | statement (statement : Statement)
deriving DecidableEq, Hashable

namespace Endpoint

def display : Endpoint → String
  | socket s => s.display
  | statement s => s.text

def anyConnection : Endpoint → Endpoint
  | socket s => socket s.anyConnection
  | statement s => statement s

end Endpoint

end CallWatch
