import CallWatch.Text.Blank
import CallWatch.Text.Lower

namespace CallWatch

-- The kind of a statement is read off its leading keyword.
inductive Statement.Kind where
  | select
  | insert
  | update
  | delete
  | merge
  | other
deriving DecidableEq, Hashable

structure Statement where
  text : String
  kind : Statement.Kind
deriving DecidableEq, Hashable

namespace Statement

namespace Kind

def all : List Kind :=
  [.select, .insert, .update, .delete, .merge, .other]

def name : Kind → String
  | .select => "SELECT"
  | .insert => "INSERT"
  | .update => "UPDATE"
  | .delete => "DELETE"
  | .merge => "MERGE"
  | .other => "OTHER"

def ofName? (name : String) : Option Kind :=
  all.find? (·.name = name)

def isMutating : Kind → Bool
  | .insert | .update | .delete | .merge => true
  | .select | .other => false

-- Keywords and the kinds they open, each with the space that must follow.
def keywords : List (String × Kind) :=
  [("select ", .select), ("with ", .select), ("insert ", .insert), ("update ", .update),
    ("delete ", .delete), ("merge ", .merge)]

-- Leading blanks are skipped and case is ignored.
def classify (text : String) : Kind :=
  let folded := Text.lowerAll (Text.trimStart text.toList)
  match keywords.find? fun (word, _) => word.toList.isPrefixOf folded with
  | some (_, kind) => kind
  | none => .other

end Kind

def ofText (text : String) : Statement :=
  ⟨text, Kind.classify text⟩

end Statement

end CallWatch
