import CallWatch.Endpoint

namespace CallWatch.Fault

-- What a fault rule is about: a pattern over targets. Every target has a pattern
-- that names exactly it.
class Pattern (π : Type) (τ : outParam Type) where
  accepts : π → τ → Bool
  exact : τ → π

-- Missing parts accept anything.
structure SocketPattern where
  host : Option String
  port : Option UInt16
deriving DecidableEq

structure DataSource where
  url : String
  user : String
deriving DecidableEq

structure SourcePattern where
  url : Option String
  user : Option String
deriving DecidableEq

namespace SocketPattern

def accepts (p : SocketPattern) (s : Socket) : Bool :=
  p.host.all s.isHost && p.port.all (· = s.port)

def exact (s : Socket) : SocketPattern :=
  ⟨some s.host, some s.port⟩

instance : Pattern SocketPattern Socket :=
  ⟨accepts, exact⟩

def display (p : SocketPattern) : String :=
  p.host.getD "*" ++ ":" ++ (p.port.map fun n => Text.showNat n.toNat).getD "*"

end SocketPattern

def DataSource.display (d : DataSource) : String :=
  d.user ++ "@" ++ d.url

namespace SourcePattern

def accepts (p : SourcePattern) (d : DataSource) : Bool :=
  p.url.all (· = d.url) && p.user.all (· = d.user)

def exact (d : DataSource) : SourcePattern :=
  ⟨some d.url, some d.user⟩

instance : Pattern SourcePattern DataSource :=
  ⟨accepts, exact⟩

def display (p : SourcePattern) : String :=
  p.user.getD "*" ++ "@" ++ p.url.getD "*"

end SourcePattern

end CallWatch.Fault
