import PocketLisp.Text.Lines

/-!
# The lines of a text

`Lines` says of a list of strings that they are the lines of a text: each ends at its only newline,
and the last may lack it. A text is its lines joined (`join_lines`), and lines that are joined are
found again (`Lines.lines_join`). So what is left of a text after some of its lines is the text of
the lines that are left.
-/

namespace PocketLisp.Text

/-- The strings are the lines of a text. -/
inductive Lines : List String → Prop where
  | nil : Lines []
  | last {line} (present : line ≠ "") (unended : '\n' ∉ line.toList) : Lines [line]
  | cons {body rest} (inside : '\n' ∉ body.toList) (more : Lines rest) :
      Lines ((body ++ "\n") :: rest)

/-- Characters that are no newlines belong to the current line. -/
theorem linesAfter_append_of_not_mem {body : List Char} (inside : '\n' ∉ body)
    (current rest : List Char) :
    linesAfter current (body ++ rest) = linesAfter (body.reverse ++ current) rest := by
  induction body generalizing current with
  | nil => rfl
  | cons c body ih =>
      obtain ⟨first, others⟩ := List.ne_and_not_mem_of_not_mem_cons inside
      rw [List.cons_append, linesAfter, if_neg (Ne.symm first), ih others]
      simp

theorem lines_append_newline {body : String} (inside : '\n' ∉ body.toList) (rest : String) :
    lines (body ++ "\n" ++ rest) = (body ++ "\n") :: lines rest := by
  have cut : (body ++ "\n" ++ rest).toList = body.toList ++ '\n' :: rest.toList := by simp
  rw [lines, cut, linesAfter_append_of_not_mem inside, linesAfter, if_pos rfl]
  simp [lines, String.ofList_append]

theorem lines_of_not_mem {line : String} (present : line ≠ "") (unended : '\n' ∉ line.toList) :
    lines line = [line] := by
  have whole := linesAfter_append_of_not_mem unended [] []
  rw [List.append_nil, List.append_nil] at whole
  simp [lines, whole, linesAfter, present]

/-- The lines of a text are such lines. -/
theorem lines_lines (text : String) : Lines (lines text) := by
  have scanned (current chars : List Char) (inside : '\n' ∉ current) :
      Lines ((linesAfter current chars).map String.ofList) := by
    induction chars generalizing current with
    | nil =>
        cases current with
        | nil => exact .nil
        | cons c current => exact .last (by simp) (by simpa [and_comm] using inside)
    | cons c rest ih =>
        rw [linesAfter]
        split
        · next newline =>
          subst newline
          have unended : '\n' ∉ (String.ofList current.reverse).toList := by simpa using inside
          simpa [String.ofList_append] using Lines.cons unended (ih [] List.not_mem_nil)
        · next other =>
          exact ih (c :: current) (List.not_mem_cons_of_ne_of_not_mem (Ne.symm other) inside)
  exact scanned [] text.toList List.not_mem_nil

/-- A text is its lines joined. -/
theorem join_lines (text : String) : String.join (lines text) = text := by
  have chars : (String.join (lines text)).toList = text.toList := by
    simpa [lines, String.toList_join, List.flatMap_map, ← List.flatten_eq_flatMap] using
      flatten_linesAfter [] text.toList
  exact String.toList_injective chars

namespace Lines

variable {line : String} {ls before after : List String}

/-- Lines that are joined are the lines of the text. -/
theorem lines_join (fine : Lines ls) : lines (String.join ls) = ls := by
  induction fine with
  | nil => rfl
  | last present unended => simpa using lines_of_not_mem present unended
  | cons inside _ ih => rw [String.join_cons, lines_append_newline inside, ih]

theorem ne_empty (fine : Lines ls) : ∀ line ∈ ls, line ≠ "" := by
  induction fine with
  | nil => exact List.forall_mem_nil _
  | last present _ => exact List.forall_mem_singleton.mpr present
  | cons _ _ ih => exact List.forall_mem_cons.mpr ⟨by simp, ih⟩

theorem tail (fine : Lines (line :: after)) : Lines after := by
  cases fine with
  | last => exact .nil
  | cons _ more => exact more

/-- Only the last line may lack its newline. -/
theorem exists_body (fine : Lines (line :: after)) (more : after ≠ []) :
    ∃ body : String, line = body ++ "\n" := by
  cases fine with
  | last => exact absurd rfl more
  | @cons body => exact ⟨body, rfl⟩

/-- The lines that are left are lines. -/
theorem of_append (fine : Lines (before ++ after)) : Lines after := by
  induction before with
  | nil => exact fine
  | cons line before ih => exact ih fine.tail

end Lines

end PocketLisp.Text
