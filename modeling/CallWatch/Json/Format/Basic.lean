import CallWatch.Json.Form
import CallWatch.Json.Writer

namespace CallWatch.Json

-- How values of a type are written and read.
structure Format (α : Type) where
  write : α → List Char
  read : Reader α

namespace Format

variable {α : Type}

def toText (f : Format α) (value : α) : String :=
  String.ofList (f.write value)

def ofText (f : Format α) (text : String) : Except Defect α :=
  f.read.readAll text

-- Values with names, written as their names.
def names (values : List (String × α)) (nameOf : α → String) : Format α :=
  ⟨fun value => Writer.string (nameOf value), Reader.name values⟩

end Format

end CallWatch.Json
