import PocketLisp.Proofs.Reader.Atom
import PocketLisp.Value.Printer

/-!
# The lexemes of printed data

The printer lays out a chain as a list, so the lexemes of a value depend on whether it stands on its
own or as the rest of a list that is open. `printLexemes` and `restLexemes` say what they are, and
`lexemes_print` and `lexemes_rest` that the printed text has them, with whatever follows.
-/

namespace PocketLisp

open Text

namespace Value

/-- Printing only adds to the text. -/
theorem write_eq_append (v : Value) (place : Place) (out : String) :
    v.write place out = out ++ v.write place "" := by
  induction v generalizing place out with
  | nil => cases place <;> simp [write]
  | int n => simp [write, String.append_assoc]
  | symbol name => simp [write, String.append_assoc]
  | procedure id name operation => simp [write, String.append_assoc]
  | pair first rest ihFirst ihRest =>
      have grow (inner place : Place) (lead : String) :
          rest.write place (first.write inner (out ++ lead)) =
            out ++ rest.write place (first.write inner ("" ++ lead)) := by
        rw [ihRest, ihFirst, ihRest place (first.write inner ("" ++ lead)),
          ihFirst inner ("" ++ lead)]
        simp [String.append_assoc]
      cases place with
      | alone => exact grow .alone .listRest "("
      | listRest => exact grow .alone .listRest " "
      | params => simpa [write] using grow .alone .listRest ""
      | bodyRest => exact grow .alone .bodyRest " "
  | closure id params body captured ihParams ihBody =>
      rw [write, write, ihBody, ihParams, ihBody .bodyRest (params.write _ _),
        ihParams .params ("" ++ _ ++ _)]
      simp [String.append_assoc]

theorem print_pair (first rest : Value) :
    (pair first rest).print = "(" ++ first.print ++ rest.write .listRest "" := by
  rw [print, write, write_eq_append rest, write_eq_append first]
  simp [print]

theorem write_rest_pair (first rest : Value) :
    (pair first rest).write .listRest "" = " " ++ first.print ++ rest.write .listRest "" := by
  rw [write, write_eq_append rest, write_eq_append first]
  simp [print]

/-- The end of a chain follows a point. -/
theorem Plain.write_rest_atom {v : Value} (plain : v.Plain) (notNil : v ≠ nil)
    (atom : ∀ first rest, v ≠ pair first rest) :
    v.write .listRest "" = " . " ++ v.print ++ ")" := by
  cases v with
  | nil => exact absurd rfl notNil
  | int n => simp [print, write, Place.lead, Place.close, String.append_assoc]
  | symbol name => simp [print, write, Place.lead, Place.close, String.append_assoc]
  | pair first rest => exact absurd rfl (atom first rest)
  | procedure id name operation => exact plain.elim
  | closure id params body captured => exact plain.elim

mutual

/-- The lexemes of a value that stands on its own. -/
def printLexemes : Value → List Lexeme
  | pair first rest => .opening :: (first.printLexemes ++ rest.restLexemes)
  | v => [.atom v.print]

/-- The lexemes of the rest of an open list. -/
def restLexemes : Value → List Lexeme
  | nil => [.closing]
  | pair first rest => first.printLexemes ++ rest.restLexemes
  | v => [.atom ".", .atom v.print, .closing]

end

/-- Plain data without parts are spelled by one atom, which reads as them. -/
theorem Plain.print_atom {v : Value} (plain : v.Plain) (atom : ∀ first rest, v ≠ pair first rest) :
    AtomText v.print.toList ∧ readAtom v.print = .ok v := by
  cases v with
  | nil => exact ⟨by decide, rfl⟩
  | int n =>
      have print_int : (int n).print = String.ofList (decimal n) := by
        simp [print, write, Place.lead, Place.close]
      rw [print_int, String.toList_ofList]
      exact ⟨atomText_decimal n, readAtom_decimal plain⟩
  | symbol name =>
      have print_symbol : (symbol name).print = name := by
        simp [print, write, Place.lead, Place.close]
      rw [print_symbol]
      exact ⟨plain.atom, readAtom_of_legal plain⟩
  | pair first rest => exact absurd rfl (atom first rest)
  | procedure id name operation => exact plain.elim
  | closure id params body captured => exact plain.elim

/-- What follows an item of a list ends its last atom. -/
theorem Plain.delimited_rest {v : Value} (plain : v.Plain) (more : List Char) :
    Delimited ((v.write .listRest "").toList ++ more) := by
  cases v with
  | nil => exact .closing more
  | pair first rest =>
      rw [write_rest_pair]
      simpa using Delimited.blank isBlank_space _
  | _ =>
      rw [plain.write_rest_atom (by simp) (by simp)]
      simpa using Delimited.blank isBlank_space _

theorem lexemes_opening (more : List Char) : lexemes ('(' :: more) = .opening :: lexemes more :=
  lexemes_single rfl more

theorem lexemes_closing (more : List Char) : lexemes (')' :: more) = .closing :: lexemes more :=
  lexemes_single rfl more

section Lexemes

variable {v : Value} (plain : v.Plain) (atom : ∀ first rest, v ≠ pair first rest)
include plain atom

theorem Plain.lexemes_print_atom {more : List Char} (delimited : Delimited more) :
    lexemes (v.print.toList ++ more) = .atom v.print :: lexemes more := by
  rw [lexemes_atom (plain.print_atom atom).1 delimited, String.ofList_toList]

theorem Plain.lexemes_rest_atom (notNil : v ≠ nil) (more : List Char) :
    lexemes ((v.write .listRest "").toList ++ more) =
      .atom "." :: .atom v.print :: .closing :: lexemes more := by
  have spelled : (v.write .listRest "").toList ++ more =
      ' ' :: (['.'] ++ ' ' :: (v.print.toList ++ ')' :: more)) := by
    simp [plain.write_rest_atom notNil atom]
  rw [spelled, lexemes_blank isBlank_space, lexemes_atom (by decide) (.blank isBlank_space _),
    lexemes_blank isBlank_space, plain.lexemes_print_atom atom (.closing more), lexemes_closing]

end Lexemes

/-- The lexemes of printed data, on their own and as the rest of a list. -/
theorem Plain.lexemes_write {v : Value} (plain : v.Plain) (more : List Char) :
    (Delimited more → lexemes (v.print.toList ++ more) = v.printLexemes ++ lexemes more) ∧
      lexemes ((v.write .listRest "").toList ++ more) = v.restLexemes ++ lexemes more := by
  induction v generalizing more with
  | nil => exact ⟨plain.lexemes_print_atom (by simp), lexemes_closing more⟩
  | pair first rest ihFirst ihRest =>
      obtain ⟨plainFirst, plainRest⟩ := plain
      have inner : lexemes (first.print.toList ++ ((rest.write .listRest "").toList ++ more)) =
          first.printLexemes ++ (rest.restLexemes ++ lexemes more) := by
        rw [(ihFirst plainFirst _).1 (plainRest.delimited_rest more), (ihRest plainRest more).2]
      constructor
      · intro _
        have spelled : (pair first rest).print.toList ++ more =
            '(' :: (first.print.toList ++ ((rest.write .listRest "").toList ++ more)) := by
          simp [print_pair]
        rw [spelled, lexemes_opening, inner, printLexemes]
        simp
      · have spelled : ((pair first rest).write .listRest "").toList ++ more =
            ' ' :: (first.print.toList ++ ((rest.write .listRest "").toList ++ more)) := by
          simp [write_rest_pair]
        rw [spelled, lexemes_blank isBlank_space, inner, restLexemes, List.append_assoc]
  | _ =>
      exact ⟨plain.lexemes_print_atom (by simp),
        plain.lexemes_rest_atom (by simp) (by simp) more⟩

/-- The lexemes of printed data with a delimiter behind them. -/
theorem Plain.lexemes_print {v : Value} (plain : v.Plain) {more : List Char}
    (delimited : Delimited more) :
    lexemes (v.print.toList ++ more) = v.printLexemes ++ lexemes more :=
  (plain.lexemes_write more).1 delimited

theorem closing_mem_write_rest (v : Value) :
    ∃ chars, (v.write .listRest "").toList = chars ++ [')'] := by
  induction v with
  | nil => exact ⟨[], rfl⟩
  | pair first rest _ ih =>
      obtain ⟨chars, spelled⟩ := ih
      exact ⟨' ' :: first.print.toList ++ chars, by simp [write_rest_pair, spelled]⟩
  | _ => exact ⟨_, by rw [write, Place.close, String.toList_append]; rfl⟩

/-- Printed data do not end in a blank. -/
theorem Plain.exists_last_char {v : Value} (plain : v.Plain) :
    ∃ chars c, v.print.toList = chars ++ [c] ∧ isBlank c = false := by
  have atomEnd (atom : ∀ first rest, v ≠ pair first rest) :
      ∃ chars c, v.print.toList = chars ++ [c] ∧ isBlank c = false := by
    obtain ⟨present, legal⟩ := (plain.print_atom atom).1
    exact ⟨_, _, (List.dropLast_concat_getLast present).symm,
      (legal _ (List.getLast_mem present)).1⟩
  cases v with
  | pair first rest =>
      obtain ⟨chars, spelled⟩ := closing_mem_write_rest rest
      exact ⟨'(' :: first.print.toList ++ chars, ')', by simp [print_pair, spelled], by decide⟩
  | _ => exact atomEnd (by simp)

end Value

end PocketLisp
