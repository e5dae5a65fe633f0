/-
  RuleNet — the table of interned names.

  A name is numbered by its place in the table, so that names compare as
  numbers.  The first places are reserved: for the type of the initial fact,
  and for the name that stands for a whole fact in place of one of its fields.
-/
import RuleNet.Ident

namespace RuleNet

/-- The interned names, each at the place that is its number. -/
structure SymbolTable where
  /-- The names in the order of their numbers. -/
  names : List String
  deriving DecidableEq

namespace SymbolTable

/-- The names that every table starts with. -/
def reserved : List String := ["InitialFact", "this"]

/-- The table of the reserved names alone. -/
def initial : SymbolTable := ⟨reserved⟩

/-- The number of a name, if it is in the table. -/
def lookup (t : SymbolTable) (name : String) : Option Symbol := t.names.idxOf? name

/-- The name with a number, if there is one. -/
def resolve (t : SymbolTable) (s : Symbol) : Option String := t.names[s]?

/-- The number of a name, which is added at the end if it is new. -/
def intern (t : SymbolTable) (name : String) : Symbol × SymbolTable :=
  match t.lookup name with
  | some s => (s, t)
  | none => (t.names.length, ⟨t.names ++ [name]⟩)

/-- How many names there are, the reserved ones included. -/
def size (t : SymbolTable) : Nat := t.names.length

/-- Whether only the reserved names are there. -/
def isEmpty (t : SymbolTable) : Bool := t.size == reserved.length

end SymbolTable

end RuleNet
