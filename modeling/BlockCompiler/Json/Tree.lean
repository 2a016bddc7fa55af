import BlockCompiler.Dict
import BlockCompiler.Json.Token
import BlockCompiler.Json.Value

/-!
# JSON trees

A text is well formed when its tokens make up one tree.  The tree keeps all that
is written: members in their order and with their repetitions, numbers as
written, strings even if they stand for no text.  What a member may hold is
judged only where it is used, so a part that nobody asks for is free to hold
anything well formed, nested as deeply as it likes.

`Json.ofTree?` takes a tree as a value.  There the nesting is limited, numbers
have to be in range, strings have to stand for a text, and the last member of a
name counts.
-/

namespace BlockCompiler

/-- A well-formed JSON text. -/
inductive JsonTree where
  | null
  | bool (b : Bool)
  | number (n : Numeral)
  | string (content : Option String)
  | array (items : List JsonTree)
  | object (members : List (Option String × JsonTree))

namespace JsonTree

/-- An array or object that is not closed yet, with its parts so far, last first. -/
inductive Frame where
  | array (items : List JsonTree)
  | object (members : List (Option String × JsonTree)) (name : Option String)

/-- What may come next. -/
inductive Expect where
  /-- A value. -/
  | value
  /-- The first item of an array, or its end. -/
  | firstItem
  /-- The first name of an object, or its end. -/
  | firstName
  /-- A further name of an object. -/
  | name
  /-- The colon after a name. -/
  | colon
  /-- Whatever follows a value. -/
  | afterValue
deriving DecidableEq, Repr

/-- The builder's state: the open frames, innermost first, and the tree once it is complete. -/
structure Builder where
  frames : List Frame := []
  expect : Expect := .value
  root : Option JsonTree := none

namespace Builder

/-- The state after a complete value. -/
def deliver (b : Builder) (t : JsonTree) : Builder :=
  match b.frames with
  | [] => { frames := [], expect := .afterValue, root := some t }
  | .array items :: rest => { b with frames := .array (t :: items) :: rest, expect := .afterValue }
  | .object members name :: rest =>
    { b with frames := .object ((name, t) :: members) none :: rest, expect := .afterValue }

/-- The state after the end of an array. -/
def closeArray (b : Builder) : Option Builder :=
  match b.frames with
  | .array items :: rest => some ({ b with frames := rest }.deliver (.array items.reverse))
  | _ => none

/-- The state after the end of an object. -/
def closeObject (b : Builder) : Option Builder :=
  match b.frames with
  | .object members _ :: rest => some ({ b with frames := rest }.deliver (.object members.reverse))
  | _ => none

/-- The state after a token at which a value begins. -/
def beginValue (b : Builder) : JsonToken → Option Builder
  | .null => some (b.deliver .null)
  | .bool v => some (b.deliver (.bool v))
  | .string s => some (b.deliver (.string s))
  | .number n => some (b.deliver (.number n))
  | .openArray => some { b with frames := .array [] :: b.frames, expect := .firstItem }
  | .openObject => some { b with frames := .object [] none :: b.frames, expect := .firstName }
  | _ => none

/-- The state after the name of a member. -/
def beginMember (b : Builder) (name : Option String) : Option Builder :=
  match b.frames with
  | .object members _ :: rest =>
    some { b with frames := .object members name :: rest, expect := .colon }
  | _ => none

/-- The state after a comma. -/
def separate (b : Builder) : Option Builder :=
  match b.frames with
  | .array _ :: _ => some { b with expect := .value }
  | .object .. :: _ => some { b with expect := .name }
  | [] => none

/-- The state after one more token. -/
def step (b : Builder) (t : JsonToken) : Option Builder :=
  match b.expect, t with
  | .firstItem, .closeArray => b.closeArray
  | .value, t | .firstItem, t => b.beginValue t
  | .firstName, .closeObject => b.closeObject
  | .firstName, .string name | .name, .string name => b.beginMember name
  | .colon, .colon => some { b with expect := .value }
  | .afterValue, .comma => b.separate
  | .afterValue, .closeArray => b.closeArray
  | .afterValue, .closeObject => b.closeObject
  | _, _ => none

/-- The tree, if it is complete. -/
def finish (b : Builder) : Option JsonTree :=
  match b.frames, b.expect with
  | [], .afterValue => b.root
  | _, _ => none

end Builder

/-- The tree that tokens make up. -/
def ofTokens? (tokens : List JsonToken) : Option JsonTree :=
  (tokens.foldlM Builder.step {}).bind Builder.finish

/-- The tree of a text. -/
def parse? (s : String) : Option JsonTree :=
  (JsonToken.scan? s).bind ofTokens?

/-- The text that a tree stands for, if it is a string. -/
def text? : JsonTree → Option String
  | .string content => content
  | _ => none

/-- The truth value that a tree stands for. -/
def bool? : JsonTree → Option Bool
  | .bool b => some b
  | _ => none

/-- The items of an array, each taken by `f`. -/
def list? {α : Type} (f : JsonTree → Option α) : JsonTree → Option (List α)
  | .array items => items.mapM f
  | _ => none

/-- The members of an object, each taken by `f`; the last one of a name counts. -/
def dict? {α : Type} (f : JsonTree → Option α) : JsonTree → Option (Dict α)
  | .object members =>
    (members.mapM fun (m : Option String × JsonTree) =>
      m.1.bind fun name => (f m.2).map fun v => (name, v)).map Dict.ofList
  | _ => none

/-- Either null or what `f` takes. -/
def optional? {α : Type} (f : JsonTree → Option α) : JsonTree → Option (Option α)
  | .null => some none
  | t => (f t).map some

/-- One of a set of words: the word as a string, or as the only member of an object, with null. -/
def choice? {α : Type} (f : String → Option α) : JsonTree → Option α
  | .string content => content.bind f
  | .object [(name, .null)] => name.bind f
  | _ => none

/-- The members of `name`, given that every member has a readable name and at most one has this
one. -/
def member? (members : List (Option String × JsonTree)) (name : String) :
    Option (Option JsonTree) :=
  match members.filter (·.1 == some name) with
  | [] => some none
  | [m] => some (some m.2)
  | _ => none

/-- The parts of a record whose fields have the given names: as an object, in any order and with
further members that do not count, or as an array of the first fields in their order. -/
def record? (names : List String) : JsonTree → Option (List (Option JsonTree))
  | .object members =>
    if members.all (·.1.isSome) then names.mapM (member? members) else none
  | .array items =>
    if items.length ≤ names.length then
      some (items.map some ++ List.replicate (names.length - items.length) none)
    else none
  | _ => none

end JsonTree

namespace Json

mutual

/-- The value that a tree stands for, with at most `depth` arrays and objects inside each
other. -/
def ofTree? (depth : Nat) : JsonTree → Option Json
  | .null => some .null
  | .bool b => some (.bool b)
  | .number n => (JsonNumber.ofNumeral? n).map .number
  | .string content => content.map .string
  | .array items =>
    match depth with
    | 0 => none
    | depth + 1 => (ofItems? depth items).map .array
  | .object members =>
    match depth with
    | 0 => none
    | depth + 1 => (ofMembers? depth members).map fun ms => .object (Dict.ofList ms).entries

/-- The values of the items of an array. -/
def ofItems? (depth : Nat) : List JsonTree → Option (List Json)
  | [] => some []
  | item :: rest => (ofTree? depth item).bind fun v => (ofItems? depth rest).map (v :: ·)

/-- The names and values of the members of an object. -/
def ofMembers? (depth : Nat) : List (Option String × JsonTree) → Option (List (String × Json))
  | [] => some []
  | (name, value) :: rest =>
    name.bind fun k => (ofTree? depth value).bind fun v =>
      (ofMembers? depth rest).map ((k, v) :: ·)

end

/-- No more than this many arrays and objects stand inside each other, all told. -/
def nestingLimit : Nat := 127

end Json

end BlockCompiler
