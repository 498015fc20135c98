import CallWatch.Thread

namespace CallWatch

-- The stack of the code that issued a call, as text. Two call sites are the same
-- when their frames are.
structure CallSite where
  frames : String
deriving DecidableEq, Hashable

-- Who made a call. A recorded origin has a thread; without one it stands for
-- the calls of every thread.
structure Origin where
  thread : Option Thread
  site : Option CallSite
deriving DecidableEq

namespace Origin

def threadId? (o : Origin) : Option Nat :=
  o.thread.map (·.id)

def isThread (o : Origin) (id : Nat) : Bool :=
  o.threadId? = some id

def withoutSite (o : Origin) : Origin :=
  { o with site := none }

end Origin

end CallWatch
