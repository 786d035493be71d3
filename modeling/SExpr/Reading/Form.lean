import SExpr.Datum.Basic
import SExpr.Reading.Fault

/-!
# Forms

A form is an expression as it is written: it keeps abbreviations, the bracket family of every list
and the texts of atoms. Its lexemes are the expression's source text without blanks, its value is
the datum that the expression denotes, and a source text is well formed if its lexemes are those of
some forms in a row.
-/
namespace SExpr

mutual

/-- An expression as it is written. -/
inductive Form
  | number (text : Text)
  | boolean (text : Text)
  | symbol (text : Text)
  | abbreviated (a : Abbreviation) (text : Text) (form : Form)
  | empty (b : Bracket) (opener closer : Text)
  | list (b : Bracket) (opener : Text) (first : Form) (rest : FormTail)

/-- What follows the first item of a list: further items, and then the closer, perhaps after a
dotted tail or an ellipsis. -/
inductive FormTail
  | close (closer : Text)
  | item (form : Form) (rest : FormTail)
  | dotted (dot : Text) (form : Form) (closer : Text)
  | repeated (ellipsis closer : Text)

end

mutual

/-- The kinds and texts of a form in order. -/
def Form.lexemes : Form → List (Kind × Text)
  | .number text => [(.number, text)]
  | .boolean text => [(.boolean, text)]
  | .symbol text => [(.symbol, text)]
  | .abbreviated a text form => (.abbreviation a, text) :: form.lexemes
  | .empty b opener closer => [(.opener b, opener), (.closer b, closer)]
  | .list b opener first rest => (.opener b, opener) :: first.lexemes ++ rest.lexemes b

def FormTail.lexemes (b : Bracket) : FormTail → List (Kind × Text)
  | .close closer => [(.closer b, closer)]
  | .item form rest => form.lexemes ++ rest.lexemes b
  | .dotted dot form closer => (.dot, dot) :: form.lexemes ++ [(.closer b, closer)]
  | .repeated ellipsis closer => [(.ellipsis, ellipsis), (.closer b, closer)]

end

mutual

/-- The datum that a form denotes. -/
def Form.value : Form → Datum
  | .number text => .number (.ofDecimal (.ofPositional text))
  | .boolean text => .boolean (text = "#t".toList)
  | .symbol text => .symbol text
  | .abbreviated a _ form => .ofItems [.symbol a.symbol, form.value]
  | .empty _ _ _ => .nil
  | .list _ _ first rest => .cons first.value rest.value

def FormTail.value : FormTail → Datum
  | .close _ => .nil
  | .item form rest => .cons form.value rest.value
  | .dotted _ form _ => form.value
  | .repeated ellipsis _ => .ellipsis (Text.decimalNumber (ellipsis.dropWhile (· = '.')))

end

end SExpr
