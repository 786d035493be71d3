import SExpr.Datum.Source

/-!
# Dispatch on the variant of a datum

A table of handlers is searched for the name of a datum's variant, and the handler gets the fields
of the datum. A handler named by an underscore takes whatever no other does, without fields.
-/
namespace SExpr

/-- The variants of data. -/
inductive Variant
  | number
  | boolean
  | symbol
  | nil
  | cons
  | ellipsis
  deriving DecidableEq, Repr

namespace Variant

def all : List Variant :=
  [number, boolean, symbol, nil, cons, ellipsis]

def handler : Variant → Text
  | number => "number".toList
  | boolean => "boolean".toList
  | symbol => "symbol".toList
  | nil => "nil".toList
  | cons => "cons".toList
  | ellipsis => "ellipsis".toList

def label (v : Variant) : Text :=
  v.handler.map Char.toUpper

end Variant

def fallback : Text := ['_']

/-- A field of a datum. -/
inductive Field
  | number (value : Binary64)
  | boolean (value : Bool)
  | name (value : Text)
  | datum (value : Datum)
  | count (value : Int)
  deriving DecidableEq

def Field.debug : Field → Text
  | number x => x.debug
  | boolean b => Datum.booleanDebug b
  | name t => t.quoted
  | datum d => d.debug
  | count n => Text.ofInt n

/-- Why a table of handlers does not apply. -/
inductive DispatchError
  | unknownHandlers (names : List Text)
  | noHandler (v : Variant)
  deriving DecidableEq, Repr

def DispatchError.message : DispatchError → Text
  | unknownHandlers names => "unknown match handlers: ".toList ++ Text.join ", ".toList names
  | noHandler v => "no handler for ".toList ++ v.handler ++ " in match".toList

namespace Datum

def variant : Datum → Variant
  | number _ => .number
  | boolean _ => .boolean
  | symbol _ => .symbol
  | nil => .nil
  | cons _ _ => .cons
  | ellipsis _ => .ellipsis

def fields : Datum → List Field
  | number x => [.number x]
  | boolean b => [.boolean b]
  | symbol name => [.name name]
  | nil => []
  | cons car cdr => [.datum car, .datum cdr]
  | ellipsis n => [.count n]

/-- The handlers that belong to no variant, each once, in order of their code points. -/
def unknownHandlers (handlers : List Text) : List Text :=
  let known := fallback :: Variant.all.map Variant.handler
  (handlers.filter (!known.contains ·)).eraseDups.mergeSort fun a b => !decide (b < a)

/-- The handler that takes a datum, and what it is given. -/
def dispatch (handlers : List Text) (d : Datum) : Except DispatchError (Text × List Field) :=
  if unknownHandlers handlers ≠ [] then .error (.unknownHandlers (unknownHandlers handlers))
  else if handlers.contains d.variant.handler then .ok (d.variant.handler, d.fields)
  else if handlers.contains fallback then .ok (fallback, [])
  else .error (.noHandler d.variant)

/-- The refusal to make a datum that is of no variant. -/
def noVariant : Text :=
  "Expr cannot be instantiated; use one of its variants".toList

end Datum

end SExpr
