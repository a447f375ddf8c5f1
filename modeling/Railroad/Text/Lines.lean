/-!
Texts as lists of lines.
-/
namespace Railroad.Text

/-- Splits at every line feed; a text that ends in one has an empty last line. -/
def splitLines : List Char → List (List Char)
  | [] => [[]]
  | c :: cs =>
      if c = '\n' then [] :: splitLines cs
      else
        match splitLines cs with
        | [] => [[c]]
        | line :: rest => (c :: line) :: rest

/-- The lines of a text. -/
def lines (text : String) : List String :=
  (splitLines text.toList).map String.ofList

/-- The lines put together again, with a line feed between neighbours. -/
def unlines (lines : List String) : String :=
  "\n".intercalate lines

/-- Carriage returns, alone or before a line feed, read as one line feed. -/
def universalLines : List Char → List Char
  | [] => []
  | '\r' :: '\n' :: cs => '\n' :: universalLines cs
  | c :: cs => (if c = '\r' then '\n' else c) :: universalLines cs

end Railroad.Text
