import CallWatch.Fault.Table

namespace CallWatch.Fault

-- The saved form of a registry: its persistence flag and its rules in order.
structure SocketEntry where
  host : Option String
  port : Option UInt16
  status : Status
deriving DecidableEq

structure SourceEntry where
  url : Option String
  user : Option String
  status : Status
deriving DecidableEq

structure Document where
  persistent : Bool
  sockets : List SocketEntry
  sources : List SourceEntry
deriving DecidableEq

namespace SocketEntry

def ofRule : SocketPattern × Status → SocketEntry
  | (p, status) => ⟨p.host, p.port, status⟩

def pattern (e : SocketEntry) : SocketPattern :=
  ⟨e.host, e.port⟩

end SocketEntry

namespace SourceEntry

def ofRule : SourcePattern × Status → SourceEntry
  | (p, status) => ⟨p.url, p.user, status⟩

def pattern (e : SourceEntry) : SourcePattern :=
  ⟨e.url, e.user⟩

end SourceEntry

namespace Document

def ofTable (persistent : Bool) (t : Table) : Document :=
  ⟨persistent, t.sockets.map SocketEntry.ofRule, t.sources.map SourceEntry.ofRule⟩

-- Enters the document's rules into a table, one after the other.
def enter (d : Document) (t : Table) : Table where
  sockets := d.sockets.foldl (fun rules e => rules.set e.pattern e.status) t.sockets
  sources := d.sources.foldl (fun rules e => rules.set e.pattern e.status) t.sources

end Document

end CallWatch.Fault
