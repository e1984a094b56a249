import PocketLisp.Text.Decimal
import PocketLisp.Text.Quoted
import PocketLisp.Value.Basic

/-!
# Printing values

Lists print as `(a b c)`, chains with a tail as `(a b . c)`, the empty list as `nil`. Integers and
symbols print as they are spelled. Procedures and closures have no spelling and print between angle
brackets.

The text grows at its end: `write` appends a value to what has been written so far, and follows the
rest of a chain in a loop, so that only nesting takes stack.
-/

namespace PocketLisp.Value

/-- Where a value stands in the text: on its own, as the rest of a list that is still open, as the
parameters of a closure, or as the rest of its body. -/
inductive Place where
  | alone
  | listRest
  | params
  | bodyRest
  deriving Repr, DecidableEq

/-- What stands before an atom: the end of a chain follows a point. -/
def Place.lead : Place → String
  | alone => ""
  | params => ". "
  | listRest | bodyRest => " . "

/-- What stands after an atom: the end of a chain closes the list or the closure's text. -/
def Place.close : Place → String
  | alone => ""
  | listRest | params => ")"
  | bodyRest => ">"

/-- Appends the printed form of a value to `out`. -/
def write : Value → Place → String → String
  | nil, .alone, out => out ++ "nil"
  | nil, place, out => out ++ place.close
  | int n, place, out => out ++ place.lead ++ String.ofList (Text.decimal n) ++ place.close
  | symbol name, place, out => out ++ place.lead ++ name ++ place.close
  | pair first rest, .alone, out => rest.write .listRest (first.write .alone (out ++ "("))
  | pair first rest, .listRest, out => rest.write .listRest (first.write .alone (out ++ " "))
  | pair first rest, .params, out => rest.write .listRest (first.write .alone out)
  | pair first rest, .bodyRest, out => rest.write .bodyRest (first.write .alone (out ++ " "))
  | procedure _ name _, place, out =>
    out ++ place.lead ++ "<Procedure " ++ name ++ ">" ++ place.close
  | closure _ parameters body _, place, out =>
    let opened := parameters.write .params (out ++ place.lead ++ "<Closure (")
    body.write .bodyRest opened ++ place.close

/-- The printed form of a value. -/
def print (v : Value) : String :=
  v.write .alone ""

/-- How deep calls nest while the value is printed. The items of a chain, its tail and the forms of
a closure are printed by calls of their own; the rest of a chain is followed in a loop. -/
def nesting : Value → Nat
  | pair first rest =>
    match rest with
    | pair _ _ => max (first.nesting + 1) rest.nesting
    | _ => max (first.nesting + 1) (rest.nesting + 1)
  | closure _ params body _ => max params.nesting body.nesting
  | _ => 0

/-- The form that tells a symbol from a value that prints alike: its name is quoted. Only the value
itself is marked, not what stands inside it. -/
def inspect : Value → String
  | symbol name => "Symbol(" ++ Text.quoted name ++ ")"
  | v => v.print

end PocketLisp.Value
