import BlockCompiler.Dict

/-!
# Sets of block types

The types that count as containers, as entry points or as always emitted are
sets of type names, listed by increasing name.
-/

namespace BlockCompiler

/-- A set of type names. -/
structure TypeSet where
  members : Dict Unit := Dict.empty

namespace TypeSet

/-- The set of the names in a list. -/
def ofList (types : List String) : TypeSet where
  members := Dict.ofList (types.map fun t => (t, ()))

/-- The names, increasing. -/
def toList (s : TypeSet) : List String :=
  s.members.names

/-- The name belongs to the set. -/
def contains (s : TypeSet) (type : String) : Bool :=
  s.members.contains type

/-- The number of names. -/
def size (s : TypeSet) : Nat :=
  s.members.size

/-- The names as they stand in messages. -/
def describe (s : TypeSet) : String :=
  ", ".intercalate s.toList

end TypeSet

end BlockCompiler
