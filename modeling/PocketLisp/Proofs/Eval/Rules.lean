import PocketLisp.Eval.Apply
import PocketLisp.Eval.SpecialForm
import PocketLisp.Proofs.Eval.Operation
import PocketLisp.Proofs.Store.Owner

/-!
# The rules of evaluation

`Evaluates task s answer s'` says that a task started in the store `s` ends with an answer, a value
or an error, and leaves the store `s'`. The rules mention neither a depth nor a trace, and nothing
that recurses without end has a derivation.

The relation is a single one over tasks rather than a mutual family for forms, argument lists,
applications and bodies, so that a proof about derivations is one induction.

The shape of a special form is wrong in the cases of `SpecialForm.Refuses`. In all other cases the
rule of the form applies, and its errors come from the forms inside it.
-/

namespace PocketLisp

/-- The value is a symbol. -/
def Value.IsSymbol (v : Value) : Prop := ∃ name, v = .symbol name

/-- The value is a list: the empty list or a pair, whatever ends the chain. -/
def Value.IsList (v : Value) : Prop := v = .nil ∨ v.IsPair

/-- The value stands for itself when it is evaluated. -/
def Value.SelfEvaluating (v : Value) : Prop := ¬ v.IsSymbol ∧ ¬ v.IsPair

/-- The value can be applied to arguments. -/
def Value.Applicable (v : Value) : Prop :=
  (∃ id name operation, v = .procedure id name operation) ∨
    ∃ id params body captured, v = .closure id params body captured

/-- The head of a list that introduces no special form. -/
def Value.OrdinaryHead (v : Value) : Prop := ∀ form : SpecialForm, v ≠ .symbol form.name

/-- The first value of a list that is not a symbol. -/
def FirstNonSymbol (values : List Value) (value : Value) : Prop :=
  ∃ (names : List String) (rest : List Value),
    values = names.map .symbol ++ value :: rest ∧ ¬ value.IsSymbol

/-- The errors in the shape of a special form, given its argument forms. Neither a scope nor the
store has a part in them. -/
inductive SpecialForm.Refuses : SpecialForm → List Value → EvalError → Prop where
  | quoteCount {args} (count : args.length ≠ 1) :
      Refuses .quote args (.wrongCount args.length 1)
  | branchFew {args} (count : args.length < 2) :
      Refuses .branch args (.tooFew args.length 2)
  | branchMany {args} (count : 3 < args.length) :
      Refuses .branch args (.tooMany args.length 3)
  | defineCount {args} (count : args.length ≠ 2) :
      Refuses .define args (.wrongCount args.length 2)
  | defineName {target form} (target_ne : ¬ Value.IsSymbol target) :
      Refuses .define [target, form] (.mismatch target .symbol)
  | assignCount {args} (count : args.length ≠ 2) :
      Refuses .assign args (.wrongCount args.length 2)
  | assignName {target form} (target_ne : ¬ Value.IsSymbol target) :
      Refuses .assign [target, form] (.mismatch target .symbol)
  | lambdaCount : Refuses .lambda [] (.tooFew 0 1)
  | lambdaList {params body} (params_ne : ¬ Value.IsList params) :
      Refuses .lambda (params :: body) (.mismatch params .list)
  | lambdaName {params body param} (list : params.IsList)
      (first : FirstNonSymbol params.elements param) :
      Refuses .lambda (params :: body) (.mismatch param .symbol)

/-- What is to be evaluated. -/
inductive Task where
  /-- A form in a scope. -/
  | eval (form : Value) (r : ScopeId)
  /-- The rest of a call: its callee and its first arguments have their values, and the other
  argument forms are still to be evaluated. -/
  | arguments (callee : Value) (values forms : List Value) (r : ScopeId)
  /-- The application of a value to arguments. -/
  | application (callee : Value) (args : List Value)
  /-- The rest of a body, after a form with the given value. -/
  | body (last : Value) (forms : List Value) (r : ScopeId)

/-- What a task ends with. -/
abbrev Answer := Except EvalError Value

/-- The rules of evaluation. -/
inductive Evaluates : Task → Store → Answer → Store → Prop where
  | self {form r s} (self : form.SelfEvaluating) :
      Evaluates (.eval form r) s (.ok form) s
  | bound {name r owner value s} (nearest : s.Owner name r owner)
      (found : (s.bindings owner).lookup name = some value) :
      Evaluates (.eval (.symbol name) r) s (.ok value) s
  | unbound {name r s} (nowhere : ∀ owner, ¬ s.Owner name r owner) :
      Evaluates (.eval (.symbol name) r) s (.error (.unbound name)) s
  | refused {special rest r e s} (shape : SpecialForm.Refuses special rest.elements e) :
      Evaluates (.eval (.pair (.symbol special.name) rest) r) s (.error e) s
  | quote {rest r datum s} (shape : rest.elements = [datum]) :
      Evaluates (.eval (.pair (.symbol "quote") rest) r) s (.ok datum) s
  | testError {rest r test yes no e s s'} (shape : rest.elements = test :: yes :: no)
      (count : no.length ≤ 1) (failed : Evaluates (.eval test r) s (.error e) s') :
      Evaluates (.eval (.pair (.symbol "if") rest) r) s (.error e) s'
  | testTrue {rest r test yes no value answer s s₁ s'}
      (shape : rest.elements = test :: yes :: no) (count : no.length ≤ 1)
      (tested : Evaluates (.eval test r) s (.ok value) s₁) (truth : value ≠ .nil)
      (branch : Evaluates (.eval yes r) s₁ answer s') :
      Evaluates (.eval (.pair (.symbol "if") rest) r) s answer s'
  | testFalse {rest r test yes no answer s s₁ s'} (shape : rest.elements = [test, yes, no])
      (tested : Evaluates (.eval test r) s (.ok .nil) s₁)
      (branch : Evaluates (.eval no r) s₁ answer s') :
      Evaluates (.eval (.pair (.symbol "if") rest) r) s answer s'
  | testFalseAlone {rest r test yes s s₁} (shape : rest.elements = [test, yes])
      (tested : Evaluates (.eval test r) s (.ok .nil) s₁) :
      Evaluates (.eval (.pair (.symbol "if") rest) r) s (.ok .nil) s₁
  | defineError {rest r name form e s s'} (shape : rest.elements = [.symbol name, form])
      (failed : Evaluates (.eval form r) s (.error e) s') :
      Evaluates (.eval (.pair (.symbol "define") rest) r) s (.error e) s'
  | define {rest r name form value s s₁} (shape : rest.elements = [.symbol name, form])
      (valued : Evaluates (.eval form r) s (.ok value) s₁) :
      Evaluates (.eval (.pair (.symbol "define") rest) r) s (.ok value)
        (s₁.define r name value)
  | assignError {rest r name form e s s'} (shape : rest.elements = [.symbol name, form])
      (failed : Evaluates (.eval form r) s (.error e) s') :
      Evaluates (.eval (.pair (.symbol "set!") rest) r) s (.error e) s'
  | assign {rest r name form value owner s s₁} (shape : rest.elements = [.symbol name, form])
      (valued : Evaluates (.eval form r) s (.ok value) s₁) (nearest : s₁.Owner name r owner) :
      Evaluates (.eval (.pair (.symbol "set!") rest) r) s (.ok value)
        (s₁.define owner name value)
  | assignUnbound {rest r name form value s s₁} (shape : rest.elements = [.symbol name, form])
      (valued : Evaluates (.eval form r) s (.ok value) s₁)
      (nowhere : ∀ owner, ¬ s₁.Owner name r owner) :
      Evaluates (.eval (.pair (.symbol "set!") rest) r) s (.error (.unbound name)) s₁
  | lambda {rest r params body s} {names : List String} (shape : rest.elements = params :: body)
      (list : params.IsList) (symbols : params.elements = names.map .symbol) :
      Evaluates (.eval (.pair (.symbol "lambda") rest) r) s
        (.ok (.closure s.nextIdentity (.ofList params.elements) (.ofList body) r))
        { s with nextIdentity := s.nextIdentity + 1 }
  | headError {head rest r e s s'} (ordinary : head.OrdinaryHead)
      (failed : Evaluates (.eval head r) s (.error e) s') :
      Evaluates (.eval (.pair head rest) r) s (.error e) s'
  | call {head rest r callee answer s s₁ s'} (ordinary : head.OrdinaryHead)
      (valued : Evaluates (.eval head r) s (.ok callee) s₁)
      (called : Evaluates (.arguments callee [] rest.elements r) s₁ answer s') :
      Evaluates (.eval (.pair head rest) r) s answer s'
  | argumentError {callee values form forms r e s s'}
      (failed : Evaluates (.eval form r) s (.error e) s') :
      Evaluates (.arguments callee values (form :: forms) r) s (.error e) s'
  | argument {callee values form forms r value answer s s₁ s'}
      (valued : Evaluates (.eval form r) s (.ok value) s₁)
      (called : Evaluates (.arguments callee (values ++ [value]) forms r) s₁ answer s') :
      Evaluates (.arguments callee values (form :: forms) r) s answer s'
  | allArguments {callee values r answer s s'}
      (applied : Evaluates (.application callee values) s answer s') :
      Evaluates (.arguments callee values [] r) s answer s'
  | procedure {id name operation args answer s}
      (performed : Primitive.Performs operation args answer) :
      Evaluates (.application (.procedure id name operation) args) s answer s
  | closureCount {id params body captured args s}
      (count : args.length ≠ params.elements.length) :
      Evaluates (.application (.closure id params body captured) args) s
        (.error (.wrongCount args.length params.elements.length)) s
  | closureName {id params body captured args param s}
      (count : args.length = params.elements.length)
      (first : FirstNonSymbol params.elements param) :
      Evaluates (.application (.closure id params body captured) args) s
        (.error (.mismatch param .symbol)) s
  | closure {id params body captured args answer s s'} {names : List String}
      (symbols : params.elements = names.map .symbol) (count : args.length = names.length)
      (run : Evaluates (.body .nil body.elements s.scopes.size)
        { s with scopes := s.scopes.push ⟨bindNames names args, some captured⟩ } answer s') :
      Evaluates (.application (.closure id params body captured) args) s answer s'
  | inapplicable {callee args s} (inapplicable : ¬ Value.Applicable callee) :
      Evaluates (.application callee args) s (.error (.mismatch callee .function)) s
  | bodyError {last form forms r e s s'}
      (failed : Evaluates (.eval form r) s (.error e) s') :
      Evaluates (.body last (form :: forms) r) s (.error e) s'
  | bodyForm {last form forms r value answer s s₁ s'}
      (valued : Evaluates (.eval form r) s (.ok value) s₁)
      (rest : Evaluates (.body value forms r) s₁ answer s') :
      Evaluates (.body last (form :: forms) r) s answer s'
  | bodyEnd {last r s} : Evaluates (.body last [] r) s (.ok last) s

end PocketLisp
