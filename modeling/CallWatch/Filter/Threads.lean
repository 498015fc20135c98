import CallWatch.Origin

namespace CallWatch

-- Whose calls are counted, seen from the thread that owns a window.
inductive ThreadScope where
  | any
  | current
  | others
deriving DecidableEq

namespace ThreadScope

def all : List ThreadScope :=
  [.any, .current, .others]

def name : ThreadScope → String
  | .any => "ANY"
  | .current => "CURRENT"
  | .others => "OTHERS"

def ofName? (name : String) : Option ThreadScope :=
  all.find? (·.name = name)

def accepts (scope : ThreadScope) (origin : Origin) (owner : Nat) : Bool :=
  match scope with
  | .any => true
  | .current => origin.isThread owner
  | .others => !origin.isThread owner

def describe : ThreadScope → String
  | .any => ""
  | .current => " current thread"
  | .others => " other threads"

end ThreadScope

end CallWatch
