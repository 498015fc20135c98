namespace CallWatch.Text

-- Lines end at a line feed, which takes one carriage return before it along.
-- What follows the last line feed is a line only if it is not empty.
def lines : List Char → List (List Char)
  | [] => []
  | '\n' :: rest => [] :: lines rest
  | '\r' :: '\n' :: rest => [] :: lines rest
  | c :: rest =>
      match lines rest with
      | [] => [[c]]
      | line :: more => (c :: line) :: more

def joinLines (ls : List (List Char)) : List Char :=
  ['\n'].intercalate ls

end CallWatch.Text
