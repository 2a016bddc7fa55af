import BlockCompiler.KeySet
import BlockCompiler.Text.Lines

/-!
# Collectors

Blocks ask for pieces of output that must appear once however many blocks need
them: an import, a variable, a line of the setup.  A collector keeps such pieces
under a symbol each.  The first text registered for a symbol stays, and the
pieces are listed in the order of their first registration.  Beside the list
stands the set of the symbols that were seen, which decides whether a text is
taken.
-/

namespace BlockCompiler

/-- Texts registered under symbols, in order of registration. -/
structure Collector where
  entries : List (String × String) := []
  /-- The symbols that a text was taken for. -/
  seen : KeySet String := {}
deriving DecidableEq, Repr

namespace Collector

/-- The text registered for a symbol. -/
def get? (c : Collector) (symbol : String) : Option String :=
  c.entries.lookup symbol

/-- A text is registered for the symbol. -/
def contains (c : Collector) (symbol : String) : Bool :=
  c.seen.contains symbol

/-- The collector after `text` was offered for `symbol`. -/
def register (c : Collector) (symbol text : String) : Collector :=
  if c.contains symbol then c
  else { entries := c.entries ++ [(symbol, text)], seen := c.seen.insert symbol }

/-- Offers `text` for `symbol`: whether it was taken, and the collector afterwards. -/
def offer (c : Collector) (symbol text : String) : Bool × Collector :=
  (!c.contains symbol, c.register symbol text)

/-- The registered texts in order. -/
def texts (c : Collector) : List String :=
  c.entries.map (·.2)

/-- The registered texts in order, each ended by exactly one line feed. -/
def flush (c : Collector) : String :=
  String.join (c.texts.map fun text => Text.trimLineFeeds text ++ "\n")

end Collector

end BlockCompiler
