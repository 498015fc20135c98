import CallWatch.Fault.Attempt
import CallWatch.Json.Reader
import CallWatch.Window.Guard

namespace CallWatch.Session

-- What a step answers.
inductive Reply where
  | done
  | unknown (name : String)
  | failed (error : WindowError)
  | origin (origin : Origin)
  | coarsened (key : Key) (isFull : Bool)
  | belongs (isThread : Bool) (scopes : List Bool)
  | opened (owner : Nat) (threads : ThreadScope)
  | dropped (existed : Bool)
  | closed (isClosed : Bool)
  | amount (amount : Option Tally)
  | size (size : Nat) (isEmpty : Bool)
  | lines (lines : List (Key × Tally))
  | summary (summary : Summary)
  | keys (keys : List Key)
  | same (same : Bool)
  | marks (marks : Marks)
  | isEmpty (isEmpty : Bool)
  | total (total : Tally)
  | count (count : Count)
  | streams (streams : List Traffic.Stream)
  | status (status : Fault.Status)
  | found (status : Option Fault.Status)
  | socketRules (rules : Fault.Rules Fault.SocketPattern)
  | sourceRules (rules : Fault.Rules Fault.SourcePattern)
  | flags (persistent threadLocal : Bool)
  | written (text : String)
  | unreadable (defect : Json.Defect)
  | attempted (attempt : Fault.Attempt)

-- The answer of a step, with what it logged and handed to the keeper. Steps of a
-- callback have reports of their own inside.
inductive Report (α : Type) where
  | plain (reply : Reply) (effects : Fault.Effects)
  | guarded (outcome : Outcome α) (inner : List (Report α)) (effects : Fault.Effects)

end CallWatch.Session
