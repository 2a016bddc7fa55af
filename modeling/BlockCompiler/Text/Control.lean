import BlockCompiler.Text.Width

/-!
# Control sequences

What a text tells a terminal to do, rather than to show: sequences of an opening
character, parameters and a closing letter, and strings between an opener and a
terminator.  `pieces` are the parts of a text between them, and `shownWidth` is the
width of what is shown.
-/

namespace BlockCompiler.Text

/-- How much of a control sequence has been read. -/
inductive Sequence where
  /-- The opening character. -/
  | opened
  /-- A parenthesis behind it, which begins the choice of a set of characters. -/
  | parenthesis
  /-- Signs that say what kind of sequence it is. -/
  | signs
  /-- So many digits of a parameter. -/
  | digits (count : Nat)
  /-- The sign between two parameters. -/
  | separator
  /-- The whole sequence. -/
  | closed
deriving DecidableEq, Repr

namespace Sequence

/-- The character can close a sequence. -/
def isClosing (c : Char) : Bool :=
  ('A' ≤ c && c ≤ 'P') || ('f' ≤ c && c ≤ 'n') ||
    ['R', 'Z', 'c', 'q', 'r', 'y', '=', '>', '<'].contains c

/-- Reads a further character.  A parameter has at most four digits; a fifth closes the
sequence. -/
def next? (c : Char) : Sequence → Option Sequence
  | opened =>
    if c = '(' || c = ')' then some parenthesis
    else if c = '[' || c = '#' || c = '?' || c = ';' then some signs
    else if c.isDigit then some (digits 1)
    else if isClosing c then some closed
    else none
  | parenthesis =>
    if c = '(' || c = ')' || c = '[' || c = '#' || c = '?' || c = ';' then some signs
    else if '0' ≤ c && c ≤ '2' then some closed
    else if c.isDigit then some (digits 1)
    else if isClosing c then some closed
    else none
  | signs =>
    if c = '(' || c = ')' || c = '[' || c = '#' || c = '?' || c = ';' then some signs
    else if c.isDigit then some (digits 1)
    else if isClosing c then some closed
    else none
  | digits count =>
    if c = ';' then some separator
    else if c.isDigit then some (if count < 4 then digits (count + 1) else closed)
    else if isClosing c then some closed
    else none
  | separator =>
    if c = ';' then some separator
    else if c.isDigit then some (digits 1)
    else if isClosing c then some closed
    else none
  | closed => none

/-- A sequence may end here. -/
def isComplete : Sequence → Bool
  | digits _ | closed => true
  | _ => false

/-- How many characters the longest sequence has that goes on like this, if there is one. -/
def reach? (s : Sequence) : List Char → Option Nat
  | [] => if s.isComplete then some 0 else none
  | c :: rest =>
    match (s.next? c).bind (·.reach? rest) with
    | some n => some (n + 1)
    | none => if s.isComplete then some 0 else none

end Sequence

/-- The number of characters up to the end of a control string: the bell, or the escape character
with a backslash. -/
def stringReach? : List Char → Option Nat
  | [] => none
  | [c] => if c.toNat = 0x07 then some 1 else none
  | c :: d :: rest =>
    if c.toNat = 0x07 then some 1
    else if c.toNat = 0x1B && d = '\\' then some 2
    else (stringReach? (d :: rest)).map (· + 1)

/-- The number of characters of the control sequence or string that the opening character `c`
begins. -/
def controlReach? (c : Char) (rest : List Char) : Option Nat :=
  let sequence := (Sequence.opened.reach? rest).map (· + 1)
  if c.toNat = 0x1B then
    match rest with
    | kind :: body =>
      if [']', 'P', 'X', '^', '_'].contains kind then
        match stringReach? body with
        | some n => some (n + 2)
        | none => sequence
      else sequence
    | [] => none
  else if c.toNat = 0x9B then sequence
  else none

/-- The parts of a text between its control sequences; `skip` counts the characters that still
belong to one. -/
def splitControls (skip : Nat) : List Char → List (List Char)
  | [] => [[]]
  | c :: rest =>
    match skip with
    | n + 1 => splitControls n rest
    | 0 =>
      match controlReach? c rest with
      | some n => [] :: splitControls (n - 1) rest
      | none =>
        match splitControls 0 rest with
        | [] => [[c]]
        | piece :: pieces => (c :: piece) :: pieces

/-- The parts of a text between its control sequences. -/
def pieces (s : String) : List String :=
  (splitControls 0 s.toList).map String.ofList

/-- The width of what a text shows, part by part. -/
def shownWidth (s : String) : Nat :=
  ((pieces s).map width).foldl (· + ·) 0

end BlockCompiler.Text
