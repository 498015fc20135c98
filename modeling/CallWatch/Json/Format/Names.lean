import CallWatch.Filter.Threads
import CallWatch.Json.Format.Basic
import CallWatch.Packet
import CallWatch.Statement

namespace CallWatch.Json.Format

def kind : Format Statement.Kind :=
  names (Statement.Kind.all.map fun k => (k.name, k)) Statement.Kind.name

def threads : Format ThreadScope :=
  names (ThreadScope.all.map fun t => (t.name, t)) ThreadScope.name

def direction : Format Direction :=
  names [(Direction.sent.name, .sent), (Direction.received.name, .received)] Direction.name

end CallWatch.Json.Format
