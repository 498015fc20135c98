import CallWatch.Fault.Rules

namespace CallWatch.Fault

-- Rules for sockets and rules for data sources.
structure Table where
  sockets : Rules SocketPattern
  sources : Rules SourcePattern
deriving DecidableEq

namespace Table

def empty : Table :=
  ⟨[], []⟩

def isEmpty (t : Table) : Bool :=
  t.sockets.isEmpty && t.sources.isEmpty

def setSocket (t : Table) (pattern : SocketPattern) (status : Status) : Table :=
  { t with sockets := t.sockets.set pattern status }

def setSource (t : Table) (pattern : SourcePattern) (status : Status) : Table :=
  { t with sources := t.sources.set pattern status }

def findSocket? (t : Table) (socket : Socket) : Option Status :=
  t.sockets.faultFor? socket

def findSource? (t : Table) (source : DataSource) : Option Status :=
  t.sources.faultFor? source

end Table

end CallWatch.Fault
