import PocketLisp.Proofs.Eval.Rules

/-!
# The shapes of special forms

Every argument list of a special form is either accepted, by `SpecialForm.Accepts`, or refused, by
`SpecialForm.Refuses`, and the check of the form finds out which. The names of parameters are
checked in the same way: either all of them are symbols, or there is a first value that is none.
-/

namespace PocketLisp

theorem symbolNames_cons (value : Value) (values : List Value) :
    symbolNames (value :: values) =
      symbolName value >>= fun name => symbolNames values >>= fun names => pure (name :: names) :=
  List.mapM_cons

/-- Symbols have their names. -/
@[simp] theorem symbolNames_map (names : List String) :
    symbolNames (names.map .symbol) = .ok names := by
  induction names with
  | nil => rfl
  | cons name names ih =>
      rw [List.map_cons, symbolNames_cons, ih]
      rfl

/-- The first value that is not a symbol is the error. -/
theorem symbolNames_of_first {values : List Value} {value : Value}
    (h : FirstNonSymbol values value) :
    symbolNames values = .error (.mismatch value .symbol) := by
  obtain ⟨names, rest, rfl, other⟩ := h
  induction names with
  | nil =>
      rw [List.map_nil, List.nil_append, symbolNames_cons]
      cases value with
      | symbol name => exact absurd ⟨name, rfl⟩ other
      | _ => rfl
  | cons name names ih =>
      rw [List.map_cons, List.cons_append, symbolNames_cons, ih]
      rfl

theorem symbols_or_first (values : List Value) :
    (∃ names : List String, values = names.map .symbol) ∨
      ∃ value, FirstNonSymbol values value := by
  obtain symbols | ⟨names, other, rest, split⟩ := all_or_first .symbol values
  · exact .inl symbols
  · exact .inr ⟨other, names, rest, split⟩

namespace Value

/-- All values but the empty list count as true. -/
theorem isTrue_iff {v : Value} : v.isTrue = true ↔ v ≠ nil := by
  cases v <;> simp [isTrue]

theorem ordinary_or_special (head : Value) :
    head.OrdinaryHead ∨ ∃ special : SpecialForm, head = symbol special.name := by
  by_cases h : head.OrdinaryHead
  · exact .inl h
  · exact .inr (by simpa [OrdinaryHead] using h)

theorem OrdinaryHead.ofHead?_eq_none {head : Value} (h : head.OrdinaryHead) :
    SpecialForm.ofHead? head = none := by
  cases head with
  | symbol name =>
      apply List.find?_eq_none.mpr
      intro special _ found
      exact h special (congrArg symbol (beq_iff_eq.mp found).symm)
  | _ => rfl

end Value

namespace SpecialForm

/-- The argument forms that a special form accepts, and its parts. -/
inductive Accepts : SpecialForm → List Value → Form → Prop where
  | quote {datum} : Accepts .quote [datum] (.quote datum)
  | branch {test yes} : Accepts .branch [test, yes] (.branch test yes none)
  | branchElse {test yes no} : Accepts .branch [test, yes, no] (.branch test yes (some no))
  | define {name form} : Accepts .define [.symbol name, form] (.define name form)
  | assign {name form} : Accepts .assign [.symbol name, form] (.assign name form)
  | lambda {params body} {names : List String} (list : params.IsList)
      (symbols : params.elements = names.map .symbol) :
      Accepts .lambda (params :: body) (.lambda names body)

theorem paramNames_of_list {params : Value} (list : params.IsList) :
    paramNames params = symbolNames params.elements := by
  obtain rfl | ⟨first, rest, rfl⟩ := list <;> rfl

theorem shape_of_accepts {special : SpecialForm} {args : List Value} {form : Form}
    (h : Accepts special args form) : special.shape args = .ok form := by
  cases h with
  | lambda list symbols =>
      rw [shape, paramNames_of_list list, symbols, symbolNames_map]
      rfl
  | _ => rfl

theorem namedValue_of_length_ne {args : List Value} (count : args.length ≠ 2) :
    namedValue args = .error (.wrongCount args.length 2) := by
  rw [namedValue, twoArguments_of_ne count]
  rfl

theorem namedValue_of_not_symbol {target form : Value} (other : ¬ target.IsSymbol) :
    namedValue [target, form] = .error (.mismatch target .symbol) := by
  cases target with
  | symbol name => exact absurd ⟨name, rfl⟩ other
  | _ => rfl

theorem paramNames_of_not_list {params : Value} (other : ¬ params.IsList) :
    paramNames params = .error (.mismatch params .list) := by
  cases params with
  | nil => exact absurd (.inl rfl) other
  | pair first rest => exact absurd (.inr ⟨first, rest, rfl⟩) other
  | _ => rfl

theorem shape_of_refuses {special : SpecialForm} {args : List Value} {e : EvalError}
    (h : Refuses special args e) : special.shape args = .error e := by
  cases h with
  | quoteCount count =>
      rw [shape, oneArgument_of_ne count]
      rfl
  | branchFew count =>
      rw [shape, checkRange, if_pos count]
      rfl
  | branchMany count =>
      have enough : ¬ args.length < 2 := by omega
      simp only [shape, checkRange, if_neg enough, if_pos count]
      rfl
  | defineCount count => rw [shape, namedValue_of_length_ne count]; rfl
  | assignCount count => rw [shape, namedValue_of_length_ne count]; rfl
  | defineName other => rw [shape, namedValue_of_not_symbol other]; rfl
  | assignName other => rw [shape, namedValue_of_not_symbol other]; rfl
  | lambdaCount => rfl
  | lambdaList other => rw [shape, paramNames_of_not_list other]; rfl
  | lambdaName list first =>
      rw [shape, paramNames_of_list list, symbolNames_of_first first]
      rfl

theorem accepts_or_refuses (special : SpecialForm) (args : List Value) :
    (∃ form, Accepts special args form) ∨ ∃ e, Refuses special args e := by
  cases special with
  | quote =>
      match args with
      | [datum] => exact .inl ⟨_, .quote⟩
      | [] | _ :: _ :: _ => exact .inr ⟨_, .quoteCount (by simp)⟩
  | branch =>
      match args with
      | [] | [_] => exact .inr ⟨_, .branchFew (by simp)⟩
      | [_, _] => exact .inl ⟨_, .branch⟩
      | [_, _, _] => exact .inl ⟨_, .branchElse⟩
      | _ :: _ :: _ :: _ :: _ => exact .inr ⟨_, .branchMany (by simp)⟩
  | define =>
      match args with
      | [] | [_] | _ :: _ :: _ :: _ => exact .inr ⟨_, .defineCount (by simp)⟩
      | [target, form] =>
          by_cases symbol : target.IsSymbol
          · obtain ⟨name, rfl⟩ := symbol
            exact .inl ⟨_, .define⟩
          · exact .inr ⟨_, .defineName symbol⟩
  | assign =>
      match args with
      | [] | [_] | _ :: _ :: _ :: _ => exact .inr ⟨_, .assignCount (by simp)⟩
      | [target, form] =>
          by_cases symbol : target.IsSymbol
          · obtain ⟨name, rfl⟩ := symbol
            exact .inl ⟨_, .assign⟩
          · exact .inr ⟨_, .assignName symbol⟩
  | lambda =>
      match args with
      | [] => exact .inr ⟨_, .lambdaCount⟩
      | params :: body =>
          by_cases list : params.IsList
          · obtain ⟨names, symbols⟩ | ⟨param, first⟩ := symbols_or_first params.elements
            · exact .inl ⟨_, .lambda list symbols⟩
            · exact .inr ⟨_, .lambdaName list first⟩
          · exact .inr ⟨_, .lambdaList list⟩

end SpecialForm

end PocketLisp
