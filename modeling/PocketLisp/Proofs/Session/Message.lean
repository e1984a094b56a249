import PocketLisp.Proofs.Session.Legal
import PocketLisp.Proofs.Text.OneLine

/-!
# Messages are single lines

A complaint takes one line, so its text must not hold a newline. What a message may show is a
character of the text that was read, which is quoted, or a value of the session, whose names were
read as atoms and hold no blank. So all failures of a session are explained in one line
(`Failure.oneLine_message`).
-/

namespace PocketLisp

open Text

theorem LegalName.oneLine {name : String} (legal : LegalName name) : OneLine name := by
  intro mem
  have present := (legal.atom.2 '\n' mem).1
  simp at present

namespace Value

theorem Place.oneLine_lead (place : Place) : OneLine place.lead := by
  cases place <;> decide

theorem Place.oneLine_close (place : Place) : OneLine place.close := by
  cases place <;> decide

/-- To write a legal value adds no newline. -/
theorem Legal.oneLine_write {v : Value} (legal : v.Legal) (place : Place) {out : String}
    (fine : OneLine out) : OneLine (v.write place out) := by
  induction v generalizing place out with
  | nil =>
      cases place with
      | alone => exact fine.append (by decide)
      | listRest | params | bodyRest => exact fine.append (Place.oneLine_close _)
  | int n =>
      exact ((fine.append place.oneLine_lead).append (oneLine_decimal n)).append
        place.oneLine_close
  | symbol name =>
      exact ((fine.append place.oneLine_lead).append legal.oneLine).append place.oneLine_close
  | pair first rest ihFirst ihRest =>
      have parts (inner : Place) {lead : String} (fineLead : OneLine lead) :
          OneLine (rest.write inner (first.write .alone (out ++ lead))) :=
        ihRest legal.2 inner (ihFirst legal.1 .alone (fine.append fineLead))
      cases place with
      | alone => exact parts .listRest (by decide)
      | listRest => exact parts .listRest (by decide)
      | params => exact ihRest legal.2 .listRest (ihFirst legal.1 .alone fine)
      | bodyRest => exact parts .bodyRest (by decide)
  | procedure id name operation =>
      have opened := (fine.append place.oneLine_lead).append (by decide : OneLine "<Procedure ")
      exact ((opened.append legal.oneLine).append (by decide)).append place.oneLine_close
  | closure id params body captured ihParams ihBody =>
      have opened := (fine.append place.oneLine_lead).append (by decide : OneLine "<Closure (")
      exact (ihBody legal.2.2 .bodyRest (ihParams legal.2.1 .params opened)).append
        place.oneLine_close

theorem Legal.oneLine_print {v : Value} (legal : v.Legal) : OneLine v.print :=
  legal.oneLine_write .alone (by decide)

end Value

theorem ReadError.oneLine_message (e : ReadError) : OneLine e.message := by
  cases e with
  | endOfText | unmatchedClose => decide
  | unexpected actual expected =>
      have lead : OneLine "Expecting character " := by decide +kernel
      have middle : OneLine ", but it's character " := by decide +kernel
      exact ((lead.append (oneLine_quoted expected)).append middle).append (oneLine_quoted actual)

theorem ReadFailure.oneLine_message (failure : ReadFailure) : OneLine failure.message := by
  cases failure with
  | malformed error => exact error.oneLine_message
  | numeralTooLong digits =>
      have limit : OneLine ("Exceeds the limit (" ++ toString Text.digitLimit ++
          " digits) for integer string conversion: value has ") := by decide +kernel
      have advice : OneLine
          " digits; use sys.set_int_max_str_digits() to increase the limit" := by decide +kernel
      exact (limit.append (oneLine_toString digits)).append advice

/-- An error that shows a legal value, or none, is explained in one line. -/
theorem EvalError.oneLine_message {e : EvalError} (legal : ∀ v ∈ e.shown?, v.Legal) :
    OneLine e.message := by
  have counted {lead middle last : String} (actual bound : Nat) (fineLead : OneLine lead)
      (fineMiddle : OneLine middle) (fineLast : OneLine last) :
      OneLine (lead ++ toString actual ++ middle ++ toString bound ++ last) :=
    (((fineLead.append (oneLine_toString actual)).append fineMiddle).append
      (oneLine_toString bound)).append fineLast
  cases e with
  | unbound name =>
      have lead : OneLine "Unbound variable: " := by decide +kernel
      exact lead.append (legal _ rfl).oneLine
  | mismatch v kind =>
      have lead : OneLine "The value " := by decide
      have middle : OneLine " is not of type " := by decide +kernel
      have last : OneLine kind.name := by cases kind <;> decide
      exact ((lead.append (legal v rfl).oneLine_print).append middle).append last
  | wrongCount actual expected =>
      have lead : OneLine "Wrong number of arguments: expected = " := by decide +kernel
      have middle : OneLine ", actual = " := by decide
      exact ((lead.append (oneLine_toString expected)).append middle).append
        (oneLine_toString actual)
  | tooFew actual minimum =>
      exact counted actual minimum (by decide +kernel) (by decide +kernel) (by decide +kernel)
  | tooMany actual maximum =>
      exact counted actual maximum (by decide +kernel) (by decide +kernel) (by decide +kernel)

/-- A failure that shows a legal value, or none, is explained in one line. -/
theorem Failure.oneLine_message {failure : Failure} (legal : ∀ v ∈ failure.shown?, v.Legal) :
    OneLine failure.message := by
  cases failure with
  | reading failure => exact failure.oneLine_message
  | evaluation failure =>
      cases failure with
      | error e => exact EvalError.oneLine_message legal
      | tooDeep => exact (by decide +kernel : OneLine "maximum recursion depth exceeded")

end PocketLisp
