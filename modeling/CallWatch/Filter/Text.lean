import CallWatch.Text.Glob.Match

namespace CallWatch

-- A pattern over an address or over the text of a statement.
inductive TextPattern where
  | any
  | exact (text : String)
  | startingWith (text : String)
  | glob (glob : String)
deriving DecidableEq

namespace TextPattern

def accepts : TextPattern → String → Bool
  | any, _ => true
  | exact expected, value => expected = value
  | startingWith start, value => start.toList.isPrefixOf value.toList
  | glob g, value => Text.globMatches g value

def display : TextPattern → String
  | any => "*"
  | exact text => text
  | startingWith text => text ++ "*"
  | glob g => g

end TextPattern

end CallWatch
