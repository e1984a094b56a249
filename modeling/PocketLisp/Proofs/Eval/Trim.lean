import PocketLisp.Proofs.Eval.Chronicle

/-!
# What ends the lists of code

Code is taken apart by its elements, so nothing in it depends on the atoms that end its lists.
`Value.trim` drops them wherever a form is evaluated, that is in the form and in its subforms, and
at the end of parameter lists. Quoted data stay as they are, and so do the names of definitions and
assignments and parameters that are no list. A special form takes the trimmed argument forms for the
same form with trimmed subforms, or refuses them for the same cause. So the subforms of a trimmed
form are trimmed forms (`Value.Subform.of_trim`), and no tail is left (`Value.untailed_trim`).
-/

namespace PocketLisp

/-- The forms that are evaluated when a special form is carried out, or when the closure is called
that it makes. -/
def Form.subforms : Form → List Value
  | quote _ => []
  | branch test yes no => test :: yes :: no.toList
  | define _ form => [form]
  | assign _ form => [form]
  | lambda _ body => body

namespace Value

/-- The value has itself and the parts of its parts for parts. -/
inductive Part (v : Value) : Value → Prop where
  | whole : Part v v
  | first {first rest} (part : Part v first) : Part v (.pair first rest)
  | rest {first rest} (part : Part v rest) : Part v (.pair first rest)
  | params {id params body r} (part : Part v params) : Part v (.closure id params body r)
  | body {id params body r} (part : Part v body) : Part v (.closure id params body r)

/-- The value stands in a form where it is evaluated. -/
inductive Subform (v : Value) : Value → Prop where
  | whole : Subform v v
  | head {head rest} (ordinary : head.OrdinaryHead) (inside : Subform v head) :
      Subform v (.pair head rest)
  | arg {head rest arg} (ordinary : head.OrdinaryHead) (mem : arg ∈ rest.elements)
      (inside : Subform v arg) : Subform v (.pair head rest)
  | special {special : SpecialForm} {rest form sub}
      (accepts : special.Accepts rest.elements form) (mem : sub ∈ form.subforms)
      (inside : Subform v sub) : Subform v (.pair (.symbol special.name) rest)

/-- The chain with nothing behind its elements. A value other than a pair stays as it is. -/
def trimEnd : Value → Value
  | pair first rest => ofList (pair first rest).elements
  | v => v

mutual

/-- The form without the atoms that end the lists in it, as far as it is evaluated. -/
def trim : Value → Value
  | pair head rest =>
    match SpecialForm.ofHead? head with
    | none => pair head.trim rest.trimEach
    | some .quote => pair head (ofList rest.elements)
    | some .branch => pair head rest.trimEach
    | some .define | some .assign => pair head (rest.trimBehind id)
    | some .lambda => pair head (rest.trimBehind trimEnd)
  | v => v

/-- The list of the trimmed elements. -/
def trimEach : Value → Value
  | pair form forms => pair form.trim forms.trimEach
  | _ => nil

/-- The list of the elements, the first one as given and the others trimmed. -/
def trimBehind (first : Value → Value) : Value → Value
  | pair other forms => pair (first other) forms.trimEach
  | _ => nil

end

end Value

/-- The argument forms of a special form, trimmed as far as they are evaluated. -/
def SpecialForm.trimArgs : SpecialForm → List Value → List Value
  | quote, args => args
  | branch, args => args.map .trim
  | define, target :: forms => target :: forms.map .trim
  | assign, target :: forms => target :: forms.map .trim
  | lambda, params :: body => params.trimEnd :: body.map .trim
  | _, [] => []

/-- A special form with other subforms. -/
def Form.map (f : Value → Value) : Form → Form
  | quote datum => quote datum
  | branch test yes no => branch (f test) (f yes) (no.map f)
  | define name form => define name (f form)
  | assign name form => assign name (f form)
  | lambda params body => lambda params (body.map f)

@[simp] theorem Form.map_id (form : Form) : form.map id = form := by
  cases form <;> simp [map]

theorem Form.subforms_map (f : Value → Value) (form : Form) :
    (form.map f).subforms = form.subforms.map f := by
  cases form with
  | branch test yes no => cases no <;> rfl
  | _ => rfl

/-- Nothing stands behind the elements of a list that is evaluated, or of a list of parameters. -/
structure Value.Untailed (e : Value) : Prop where
  forms {form : Value} : form.Subform e → form.IsPair → form.tail = nil
  params {params body : Value} : (pair (symbol "lambda") (pair params body)).Subform e →
    params.IsPair → params.tail = nil

namespace Value

variable {u v w : Value}

section Parts

theorem Part.trans (h : u.Part v) (h' : v.Part w) : u.Part w := by
  induction h' with
  | whole => exact h
  | first _ ih => exact .first ih
  | rest _ ih => exact .rest ih
  | params _ ih => exact .params ih
  | body _ ih => exact .body ih

theorem elements_ofList_nil (items : List Value) : (ofList items).elements = items := by
  rw [elements_ofList, elements_nil, List.append_nil]

theorem part_of_mem_elements (mem : v ∈ w.elements) : v.Part w := by
  induction w with
  | pair first rest _ ih =>
      obtain rfl | mem := List.mem_cons.mp mem
      · exact .first .whole
      · exact .rest (ih mem)
  | _ => cases mem

end Parts

section Trim

@[simp] theorem elements_trimEnd (v : Value) : v.trimEnd.elements = v.elements := by
  cases v with
  | pair first rest => simp [trimEnd]
  | _ => rfl

theorem isList_trimEnd_iff : v.trimEnd.IsList ↔ v.IsList := by
  cases v with
  | pair first rest => exact ⟨fun _ => .inr ⟨_, _, rfl⟩, fun _ => .inr ⟨_, _, rfl⟩⟩
  | _ => exact Iff.rfl

theorem trimEnd_of_not_list (other : ¬ v.IsList) : v.trimEnd = v := by
  cases v with
  | pair first rest => exact absurd (.inr ⟨_, _, rfl⟩) other
  | _ => rfl

theorem trimEach_eq (v : Value) : v.trimEach = ofList (v.elements.map trim) := by
  induction v with
  | pair first rest _ ih => rw [trimEach, ih]; rfl
  | _ => rfl

/-- A trimmed head introduces no special form that the head does not introduce. -/
theorem OrdinaryHead.trim {head : Value} (ordinary : head.OrdinaryHead) :
    head.trim.OrdinaryHead := by
  cases head with
  | pair first rest =>
      intro special same
      unfold Value.trim at same
      split at same <;> cases same
  | _ => exact ordinary

theorem trim_call {head : Value} (ordinary : head.OrdinaryHead) (rest : Value) :
    (pair head rest).trim = pair head.trim (ofList (rest.elements.map trim)) := by
  rw [trim, ordinary.ofHead?_eq_none, trimEach_eq]

theorem trim_special (special : SpecialForm) (rest : Value) :
    (pair (symbol special.name) rest).trim =
      pair (symbol special.name) (ofList (special.trimArgs rest.elements)) := by
  have head : SpecialForm.ofHead? (symbol special.name) = some special :=
    SpecialForm.ofName?_name special
  rw [trim, head]
  cases special with
  | quote => rfl
  | branch => exact congrArg _ rest.trimEach_eq
  | define | assign | lambda =>
      cases rest with
      | pair first rest => exact congrArg (fun forms => pair _ (pair _ forms)) rest.trimEach_eq
      | _ => rfl

/-- A trimmed form that is a list was a list before. -/
theorem exists_of_trim_eq_pair {e head rest : Value} (trimmed : e.trim = pair head rest) :
    (∃ head' rest', head'.OrdinaryHead ∧ e = pair head' rest' ∧ head = head'.trim ∧
        rest = ofList (rest'.elements.map trim)) ∨
      ∃ (special : SpecialForm) (rest' : Value), e = pair (symbol special.name) rest' ∧
        head = symbol special.name ∧ rest = ofList (special.trimArgs rest'.elements) := by
  cases e with
  | pair head' rest' =>
      obtain ordinary | ⟨special, rfl⟩ := head'.ordinary_or_special
      · rw [trim_call ordinary] at trimmed
        cases trimmed
        exact .inl ⟨head', rest', ordinary, rfl, rfl, rfl⟩
      · rw [trim_special] at trimmed
        cases trimmed
        exact .inr ⟨special, rest', rfl, rfl, rfl⟩
  | _ => cases trimmed

end Trim

end Value

namespace SpecialForm

variable {special : SpecialForm} {args : List Value}

theorem eq_of_name {special special' : SpecialForm}
    (same : special.name = special'.name) : special = special' :=
  Option.some.inj ((ofName?_name special).symm.trans (same ▸ ofName?_name special'))

theorem length_trimArgs (special : SpecialForm) (args : List Value) :
    (special.trimArgs args).length = args.length := by
  cases special <;> cases args <;> simp [trimArgs]

/-- The trimmed arguments are accepted as the same form, with its subforms trimmed. -/
theorem Accepts.trim {form : Form} (accepts : special.Accepts args form) :
    special.Accepts (special.trimArgs args) (form.map .trim) := by
  cases accepts with
  | quote => exact .quote
  | branch => exact .branch
  | branchElse => exact .branchElse
  | define => exact .define
  | assign => exact .assign
  | lambda list symbols =>
      exact .lambda (Value.isList_trimEnd_iff.mpr list) (by rw [Value.elements_trimEnd, symbols])

/-- The trimmed arguments are refused for the same cause, which never lies behind the elements. -/
theorem Refuses.trim {e : EvalError} (refuses : special.Refuses args e) :
    special.Refuses (special.trimArgs args) e := by
  have count := special.length_trimArgs args
  cases refuses with
  | quoteCount wrong => exact .quoteCount wrong
  | branchFew few => exact count ▸ .branchFew (count.symm ▸ few)
  | branchMany many => exact count ▸ .branchMany (count.symm ▸ many)
  | defineCount wrong => exact count ▸ .defineCount (count.symm ▸ wrong)
  | assignCount wrong => exact count ▸ .assignCount (count.symm ▸ wrong)
  | defineName other => exact .defineName other
  | assignName other => exact .assignName other
  | lambdaCount => exact .lambdaCount
  | lambdaList other =>
      rw [trimArgs, Value.trimEnd_of_not_list other]
      exact .lambdaList other
  | lambdaName list first =>
      exact .lambdaName (Value.isList_trimEnd_iff.mpr list) (by rwa [Value.elements_trimEnd])

/-- The trimmed arguments are accepted for nothing but the trimmed form. -/
theorem Accepts.of_trim {form' : Form}
    (accepts : special.Accepts (special.trimArgs args) form') :
    ∃ form, special.Accepts args form ∧ form' = form.map .trim := by
  have shape := shape_of_accepts accepts
  obtain ⟨form, accepts⟩ | ⟨e, refuses⟩ := special.accepts_or_refuses args
  · rw [shape_of_accepts accepts.trim] at shape
    exact ⟨form, accepts, (Except.ok.inj shape).symm⟩
  · rw [shape_of_refuses refuses.trim] at shape
    cases shape

/-- Subforms are found among the argument forms. -/
theorem Accepts.mem_of_subforms {form : Form} (accepts : special.Accepts args form) {v : Value}
    (mem : v ∈ form.subforms) : v ∈ args := by
  cases accepts with
  | quote => cases mem
  | branch | branchElse => simpa [Form.subforms] using mem
  | define | assign | lambda => exact List.mem_cons_of_mem _ mem

theorem Accepts.datum_mem {datum : Value} (accepts : special.Accepts args (.quote datum)) :
    datum ∈ args := by
  cases accepts
  exact List.mem_cons_self

theorem Accepts.eq_lambda {names : List String} {body : List Value}
    (accepts : special.Accepts args (.lambda names body)) : special = .lambda := by
  cases accepts
  rfl

/-- An error in the shape shows a part of an argument form. -/
theorem Refuses.part {e : EvalError} {v : Value} (refuses : special.Refuses args e)
    (shown : v ∈ e.shown?) : ∃ arg ∈ args, v.Part arg := by
  cases refuses with
  | defineName | assignName | lambdaList =>
      cases shown
      exact ⟨_, List.mem_cons_self, .whole⟩
  | lambdaName list first =>
      cases shown
      obtain ⟨names, rest, split, -⟩ := first
      exact ⟨_, List.mem_cons_self, Value.part_of_mem_elements (split ▸ by simp)⟩
  | _ => cases shown

end SpecialForm

namespace Value.Subform

variable {u v w : Value}

theorem trans (h : u.Subform v) (h' : v.Subform w) : u.Subform w := by
  induction h' with
  | whole => exact h
  | head ordinary _ ih => exact .head ordinary ih
  | arg ordinary mem _ ih => exact .arg ordinary mem ih
  | special accepts mem _ ih => exact .special accepts mem ih

theorem part (h : v.Subform w) : v.Part w := by
  induction h with
  | whole => exact .whole
  | head _ _ ih => exact .first ih
  | arg _ mem _ ih => exact .rest (ih.trans (part_of_mem_elements mem))
  | special accepts mem _ ih =>
      exact .rest (ih.trans (part_of_mem_elements (accepts.mem_of_subforms mem)))

end Value.Subform

namespace Value

/-- The subforms of a trimmed form are those of the form, trimmed. -/
theorem Subform.of_trim {e v : Value} (inside : v.Subform e.trim) :
    ∃ form : Value, form.Subform e ∧ v = form.trim := by
  -- The induction is on where the subform stands. The list around it comes from a list of `e`.
  generalize whole : e.trim = w at inside
  induction inside generalizing e with
  | whole => exact ⟨e, .whole, whole.symm⟩
  | @head head rest ordinary inside ih =>
      obtain ⟨head', rest', ordinary', rfl, rfl, rfl⟩ | ⟨special, rest', rfl, rfl, rfl⟩ :=
        exists_of_trim_eq_pair whole
      · obtain ⟨form, found, rfl⟩ := ih rfl
        exact ⟨form, .head ordinary' found, rfl⟩
      · exact absurd rfl (ordinary special)
  | @arg head rest arg ordinary mem inside ih =>
      obtain ⟨head', rest', ordinary', rfl, rfl, rfl⟩ | ⟨special, rest', rfl, rfl, rfl⟩ :=
        exists_of_trim_eq_pair whole
      · obtain ⟨arg', mem', rfl⟩ : ∃ arg' ∈ rest'.elements, arg'.trim = arg := by
          simpa using mem
        obtain ⟨form, found, rfl⟩ := ih rfl
        exact ⟨form, .arg ordinary' mem' found, rfl⟩
      · exact absurd rfl (ordinary special)
  | @special special rest form sub accepts mem inside ih =>
      obtain ⟨head', rest', ordinary', rfl, same, rfl⟩ | ⟨special', rest', rfl, same, rfl⟩ :=
        exists_of_trim_eq_pair whole
      · exact absurd same.symm (ordinary'.trim special)
      · obtain rfl := SpecialForm.eq_of_name (Value.symbol.inj same)
        rw [elements_ofList_nil] at accepts
        obtain ⟨form', accepts', rfl⟩ := accepts.of_trim
        rw [Form.subforms_map] at mem
        obtain ⟨sub', mem', rfl⟩ := List.mem_map.mp mem
        obtain ⟨form, found, rfl⟩ := ih rfl
        exact ⟨form, .special accepts' mem' found, rfl⟩

theorem untailed_trim (e : Value) : e.trim.Untailed where
  forms inside isPair := by
    obtain ⟨form, -, rfl⟩ := inside.of_trim
    obtain ⟨head, rest, trimmed⟩ := isPair
    rw [trimmed]
    obtain ⟨_, _, -, -, -, rfl⟩ | ⟨_, _, -, -, rfl⟩ := exists_of_trim_eq_pair trimmed <;>
      exact tail_ofList ..
  params {params body} inside isPair := by
    obtain ⟨form, -, trimmed⟩ := inside.of_trim
    obtain ⟨head', rest', ordinary', rfl, same, -⟩ | ⟨special, rest', rfl, same, args⟩ :=
      exists_of_trim_eq_pair trimmed.symm
    · exact absurd same.symm (ordinary'.trim .lambda)
    · obtain rfl : .lambda = special := SpecialForm.eq_of_name (Value.symbol.inj same)
      cases rest' with
      | pair params' body' =>
          cases args
          cases params' with
          | pair first rest => exact tail_ofList ..
          | _ =>
              obtain ⟨_, _, same⟩ := isPair
              cases same
      | _ => cases args

end Value

end PocketLisp
