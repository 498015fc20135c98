namespace CallWatch.Session

-- What the script of a session calls things. A name given again means the new thing.
abbrev Names (α : Type) :=
  List (String × α)

namespace Names

variable {α : Type}

def get? (names : Names α) (name : String) : Option α :=
  (names.find? (·.1 = name)).map (·.2)

def bind (names : Names α) (name : String) (a : α) : Names α :=
  (name, a) :: names.filter (·.1 ≠ name)

def unbind (names : Names α) (name : String) : Names α :=
  names.filter (·.1 ≠ name)

theorem get?_bind (names : Names α) (name other : String) (a : α) :
    (names.bind name a).get? other = if name = other then some a else names.get? other := by
  by_cases h : name = other
  · simp [bind, get?, h]
  · simp only [bind, get?, List.find?_cons, h, decide_false, if_false, List.find?_filter]
    congr 2
    funext entry
    by_cases he : entry.1 = other
    · simp [he, Ne.symm h]
    · simp [he]

end Names

end CallWatch.Session
