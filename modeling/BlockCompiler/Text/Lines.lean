import BlockCompiler.Text.Blank

/-!
# Lines

A line ends at a line feed, and a carriage return right before that line feed
belongs to the line's end.  Text after the last line feed is a line of its own,
kept as it is; a text that ends in a line feed has no further, empty line.
Indentation and comments work line by line.
-/

namespace BlockCompiler.Text

/-- The lines of a list of characters. -/
def splitLines : List Char → List (List Char)
  | [] => []
  | '\r' :: '\n' :: rest => [] :: splitLines rest
  | '\n' :: rest => [] :: splitLines rest
  | c :: rest =>
    match splitLines rest with
    | [] => [[c]]
    | line :: lines => (c :: line) :: lines

/-- The lines of a text, without their ends. -/
def lines (s : String) : List String :=
  (splitLines s.toList).map String.ofList

/-- Each line with `f` applied to it and ended by a line feed. -/
def mapLines (f : String → String) (s : String) : String :=
  String.join ((lines s).map fun line => f line ++ "\n")

/-- Every line that is not empty stands one `unit` further in. -/
def indent (unit : String) (s : String) : String :=
  mapLines (fun line => if line.isEmpty then "" else unit ++ line) s

/-- The text without the line feeds at its end. -/
def trimLineFeeds (s : String) : String :=
  String.ofList (dropEndWhile (· == '\n') s.toList)

end BlockCompiler.Text
