import CallWatch.Endpoint
import CallWatch.Filter.Text

namespace CallWatch

-- The text before and after the last occurrence of `sep`, if there is one.
def Text.splitLast? (sep : Char) (cs : List Char) : Option (List Char × List Char) :=
  match cs.reverse.dropWhile (· ≠ sep) with
  | [] => none
  | _ :: before => some (before.reverse, (cs.reverse.takeWhile (· ≠ sep)).reverse)

-- Which endpoints' calls are looked at: all of them, sockets by address, or
-- statements by kind and text. No kind means every kind.
inductive EndpointFilter where
  | every
  | sockets (address : TextPattern)
  | statements (kind : Option Statement.Kind) (text : TextPattern)
deriving DecidableEq

namespace EndpointFilter

def anySocket : EndpointFilter :=
  sockets .any

def anyStatement : EndpointFilter :=
  statements none .any

def address (text : String) : EndpointFilter :=
  sockets (.exact text)

def kind? : EndpointFilter → Option Statement.Kind
  | statements kind _ => kind
  | _ => none

-- The host part of an address whose last part is a numeral for the port.
def hostBeforePort? (port : UInt16) (address : List Char) : Option (List Char) :=
  match Text.splitLast? ':' address with
  | some (host, numeral) =>
      if Text.readNat? 65535 numeral = some port.toNat then some host else none
  | none => none

-- An exact address names a host, or a host and a port. Its host may be the one of
-- the socket or the address that it resolved to.
def addressNames (address : String) (s : Socket) : Bool :=
  match hostBeforePort? s.port address.toList with
  | some host => s.isHost (String.ofList host)
  | none => s.isHost address

def acceptsSocket (pattern : TextPattern) (s : Socket) : Bool :=
  match pattern with
  | .exact address => addressNames address s
  | pattern => pattern.accepts s.address

def accepts : EndpointFilter → Endpoint → Bool
  | every, _ => true
  | sockets pattern, .socket s => acceptsSocket pattern s
  | statements kind text, .statement s => kind.all (· = s.kind) && text.accepts s.text
  | _, _ => false

def describe : EndpointFilter → String
  | every => "calls"
  | sockets .any => "socket operations"
  | sockets pattern => "socket operations with " ++ pattern.display
  | statements kind text =>
      let what := match kind with
        | some kind => kind.name ++ " queries"
        | none => "queries"
      if text = .any then what else what ++ " matching " ++ text.display

end EndpointFilter

end CallWatch
