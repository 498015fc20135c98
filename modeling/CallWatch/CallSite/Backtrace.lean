import CallWatch.Text.Blank
import CallWatch.Text.Lines

namespace CallWatch.Backtrace

-- A backtrace lists frames, the innermost first. The first of them belong to the
-- capture itself and tell nothing about the caller.

def internalPrefixes : List String :=
  ["std::backtrace", "core::", "wiretap_store::", "wiretap::", "wiretap_registry::"]

-- A symbol may open with angle brackets, as the symbol of a trait method does.
def isInternal (symbol : List Char) : Bool :=
  internalPrefixes.any fun p => p.toList.isPrefixOf (symbol.dropWhile (· == '<'))

-- The symbol of a frame's first line: a frame number, a colon, a space, the symbol.
def symbol? (line : List Char) : Option (List Char) :=
  let text := Text.trimStart line
  match text.takeWhile Char.isDigit, text.dropWhile Char.isDigit with
  | _ :: _, ':' :: ' ' :: symbol => some symbol
  | _, _ => none

structure Frame where
  symbol : List Char
  lines : List (List Char)
deriving DecidableEq

-- Lines that follow a frame's first line belong to it. The lines before the first
-- frame are kept apart, in front.
def frames : List (List Char) → List (List Char) × List Frame
  | [] => ([], [])
  | line :: rest =>
      let (loose, more) := frames rest
      match symbol? line with
      | some symbol => ([], ⟨symbol, line :: loose⟩ :: more)
      | none => (line :: loose, more)

-- The frames from the first caller on, with every line as it was.
def callerLines (lines : List (List Char)) : List (List Char) :=
  ((frames lines).2.dropWhile fun f => isInternal f.symbol).flatMap (·.lines)

def callerFrames (backtrace : String) : String :=
  String.ofList (Text.joinLines (callerLines (Text.lines backtrace.toList)))

end CallWatch.Backtrace
