/-!
# Lines of a source text

Two ways of cutting a text into lines without their ends. A text held in memory may
end its lines with a line feed alone or after one carriage return; of a file read
from disk only the carriage return right before a line feed, or at the very end, is
dropped, and a file with a line beyond the reader's buffer cannot be read.
-/
namespace TypedScript.Source

/-- Cut at every line feed; there is always one piece more than line feeds. -/
def pieces : List Char → List (List Char)
  | [] => [[]]
  | c :: cs =>
    if c = '\n' then [] :: pieces cs
    else
      match pieces cs with
      | [] => [[c]]
      | p :: ps => (c :: p) :: ps

/-- Turn carriage return and line feed into a line feed. -/
def joinReturns : List Char → List Char
  | [] => []
  | '\r' :: '\n' :: cs => '\n' :: joinReturns cs
  | c :: cs => c :: joinReturns cs

/-- Drop one line feed at the end. -/
def dropFinalFeed (cs : List Char) : List Char :=
  if cs.getLast? = some '\n' then cs.dropLast else cs

/-- The lines of a text held in memory. -/
def lines (text : String) : List String :=
  if text.isEmpty then []
  else (pieces (dropFinalFeed (joinReturns text.toList))).map String.ofList

/-- Drop one carriage return at the end. -/
def dropFinalReturn (cs : List Char) : List Char :=
  if cs.getLast? = some '\r' then cs.dropLast else cs

/-- The number of bytes that a reader of lines holds at once. -/
def bufferSize : Nat := 65536

/-- The lines of a file, or `none` when one of them fills the reader's buffer. -/
def fileLines? (text : String) : Option (List String) :=
  let raw := pieces text.toList
  let raw := if raw.getLast? = some [] then raw.dropLast else raw
  if raw.any fun l => decide (bufferSize ≤ (String.ofList l).utf8ByteSize) then none
  else some (raw.map fun l => String.ofList (dropFinalReturn l))

end TypedScript.Source
