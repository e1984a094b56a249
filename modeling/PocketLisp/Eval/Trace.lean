import PocketLisp.Eval.Machine
import PocketLisp.Value.Printer

/-!
# The debugging log

Each event is one line of the log: its level, the part of the program that reports it, and what
happened. Below the line of a failure the log also shows where in the program's own code the failure
arose; that is left out here.
-/

namespace PocketLisp.Event

/-- The part of the program that reports an event. -/
def source : Event → String
  | specialForm _ => "minilisp.evaluation.evaluator"
  | closureMade _ => "minilisp.evaluation.special_forms.lambda_form"
  | applying _ _ => "minilisp.evaluation.apply"
  | failure => "minilisp.repl"

/-- What happened. -/
def description : Event → String
  | specialForm name => "Special form " ++ name
  | closureMade closure => "Closure created: " ++ closure.print
  | applying closure args =>
    "Applying " ++ closure.print ++ " to [" ++
      String.intercalate ", " (args.map Value.inspect) ++ "]"
  | failure => "Evaluation failed"

/-- The line of the log. -/
def logLine (event : Event) : String :=
  "DEBUG " ++ event.source ++ ": " ++ event.description

end PocketLisp.Event
