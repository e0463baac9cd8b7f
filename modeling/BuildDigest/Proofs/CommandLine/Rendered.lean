import BuildDigest.CommandLine.Argument
import BuildDigest.Proofs.Text.Sign

/-!
# Arguments and the parts they were read from

An argument can be written as a part again. Reading loses one thing only: a colon at the
end of a switch without a value. Apart from that colon, parts and arguments determine each
other.

* `Argument.Reads` — the rules by which a part after the first is read, one for each form
  that it can have. `Argument.reads_iff` — they are what `Argument.ofPart` does.
* `Argument.render`, `render` — what arguments are written as.
* `WellFormed` — the lists of arguments that are read from parts.
* `withoutColons` — parts as they are told apart.

The main result is `classify_inverts_render`.
-/

namespace BuildDigest.CommandLine

namespace Argument

/-- What a part after the first is read as. -/
inductive Reads : List Char → Argument → Prop
  | operand {cs : List Char} (hSlash : cs.head? ≠ some '/') :
      Reads cs (.positional (String.ofList cs))
  | bare {name : List Char} (hName : ':' ∉ name) :
      Reads ('/' :: name) (.switch (String.ofList name) none)
  | colon {name : List Char} (hName : ':' ∉ name) :
      Reads ('/' :: name ++ [':']) (.switch (String.ofList name) none)
  | valued {name value : List Char} (hName : ':' ∉ name) (hValue : value ≠ []) :
      Reads ('/' :: name ++ ':' :: value)
        (.switch (String.ofList name) (some (String.ofList value)))

/-- What an argument is written as. -/
def render : Argument → String
  | .positional value => value
  | .switch name none => "/" ++ name
  | .switch name (some value) => "/" ++ name ++ ":" ++ value

end Argument

/-- What arguments are written as. -/
def render (args : List Argument) : List String :=
  args.map Argument.render

/-- The lists of arguments that are read from parts. -/
structure WellFormed (args : List Argument) : Prop where
  program : ∀ a ∈ args.head?, a.switch? = none
  /-- A positional argument has a value. -/
  given : ∀ a ∈ args, a.switch? = none → a.value? ≠ none
  names : ∀ a ∈ args, ∀ name, a.switch? = some name → ':' ∉ name.toList
  values : ∀ a ∈ args, a.switch? ≠ none → a.value? ≠ some ""
  /-- After the program, what starts with a slash is a switch. -/
  operands : ∀ a ∈ args.tail, ∀ value, a.switch? = none → a.value? = some value →
    value.toList.head? ≠ some '/'

/-- Whether a part starts with a slash and has its first colon at its end. -/
def endsInColon (part : String) : Bool :=
  part.toList.head? = some '/' ∧ part.toList.idxOf ':' + 1 = part.toList.length

/-- A part without the colon that ends it, if that is its first and it starts with a slash. -/
def withoutColon (part : String) : String :=
  if endsInColon part then String.ofList part.toList.dropLast else part

/-- Parts without such colons. The first part keeps its own. -/
def withoutColons : List String → List String
  | [] => []
  | program :: rest => program :: rest.map withoutColon

-- ---------------------------------------------------------------------------
-- How a part is read
-- ---------------------------------------------------------------------------

namespace Argument

theorem ofSwitchChars_bare {name : List Char} (hName : ':' ∉ name) :
    ofSwitchChars name = .switch (String.ofList name) none := by
  have hAll := Text.forall_bne_iff.mpr hName
  rw [ofSwitchChars, List.takeWhile_eq_self_iff.mpr hAll, List.dropWhile_eq_nil_iff.mpr hAll]

/-- A switch is cut at its first colon, and an empty value is none. -/
theorem ofSwitchChars_colon {name : List Char} (hName : ':' ∉ name) (value : List Char) :
    ofSwitchChars (name ++ ':' :: value) =
      .switch (String.ofList name) (if value = [] then none else some (String.ofList value)) := by
  have hHead : ∀ c ∈ (':' :: value).head?, c = ':' := by simp
  rw [ofSwitchChars, Text.takeWhile_append_sign hName hHead, Text.dropWhile_append_sign hName hHead]
  cases value with
  | nil => simp
  | cons c rest => simp

theorem ofPart_slash (body : List Char) :
    ofPart (String.ofList ('/' :: body)) = ofSwitchChars body := by
  simp [ofPart]

/-- A part that starts with no slash is an operand. -/
theorem ofPart_operand {part : String} (hSlash : part.toList.head? ≠ some '/') :
    ofPart part = .positional part := by
  unfold ofPart
  split
  · rename_i body hPart
    simp [hPart] at hSlash
  · rfl

/-- A part is read by the rules, and by no others. -/
theorem reads_iff {cs : List Char} {a : Argument} : Reads cs a ↔ ofPart (String.ofList cs) = a := by
  constructor
  · intro h
    cases h with
    | operand hSlash => exact ofPart_operand (by simpa using hSlash)
    | bare hName => rw [ofPart_slash, ofSwitchChars_bare hName]
    | colon hName => rw [List.cons_append, ofPart_slash, ofSwitchChars_colon hName, if_pos rfl]
    | valued hName hValue =>
      rw [List.cons_append, ofPart_slash, ofSwitchChars_colon hName, if_neg hValue]
  · rintro rfl
    by_cases hSlash : cs.head? = some '/'
    · obtain ⟨body, rfl⟩ := List.head?_eq_some_iff.mp hSlash
      rw [ofPart_slash]
      rcases Text.sign_cases ':' body with hName | ⟨name, value, hName, rfl⟩
      · rw [ofSwitchChars_bare hName]
        exact .bare hName
      · rw [ofSwitchChars_colon hName]
        by_cases hValue : value = []
        · subst hValue
          exact .colon hName
        · rw [if_neg hValue]
          exact .valued hName hValue
    · rw [ofPart_operand (by simpa using hSlash)]
      exact .operand hSlash

/-- Every part is read as something. -/
theorem reads_ofPart (part : String) : Reads part.toList (ofPart part) :=
  reads_iff.mpr (by rw [String.ofList_toList])

-- ---------------------------------------------------------------------------
-- What is read has the right form
-- ---------------------------------------------------------------------------

section

variable {cs : List Char} {a : Argument}

/-- An operand has a value. -/
theorem Reads.given (h : Reads cs a) (hPositional : a.switch? = none) : a.value? ≠ none := by
  cases h with
  | operand _ => simp [value?]
  | bare _ | colon _ | valued _ _ => simp [switch?] at hPositional

theorem Reads.name (h : Reads cs a) {name : String} (hSwitch : a.switch? = some name) :
    ':' ∉ name.toList := by
  cases h with
  | operand _ => simp [switch?] at hSwitch
  | bare hName | colon hName | valued hName _ =>
    obtain rfl := Option.some.inj hSwitch
    simpa using hName

/-- A switch has no empty value. -/
theorem Reads.value (h : Reads cs a) (hSwitch : a.switch? ≠ none) : a.value? ≠ some "" := by
  cases h with
  | operand _ => simp [switch?] at hSwitch
  | bare _ | colon _ => simp [value?]
  | valued _ hValue =>
    intro hEmpty
    exact hValue (by simpa using congrArg String.toList (Option.some.inj hEmpty))

/-- An operand does not start with a slash. -/
theorem Reads.operand_head (h : Reads cs a) {value : String} (hPositional : a.switch? = none)
    (hValue : a.value? = some value) : value.toList.head? ≠ some '/' := by
  cases h with
  | operand hSlash =>
    obtain rfl := Option.some.inj hValue
    simpa using hSlash
  | bare _ | colon _ | valued _ _ => simp [switch?] at hPositional

end

-- ---------------------------------------------------------------------------
-- What is read and written again
-- ---------------------------------------------------------------------------

/-- The first colon of a part stands at its end exactly if nothing follows the characters in front
of it. -/
theorem endsInColon_iff (cs : List Char) :
    endsInColon (String.ofList cs) = true ↔
      cs.head? = some '/' ∧ cs.idxOf ':' + 1 = cs.length := by
  simp [endsInColon]

/-- The first colon behind a name without colons. -/
theorem idxOf_colon {name : List Char} (hName : ':' ∉ name) (rest : List Char) :
    ('/' :: name ++ ':' :: rest).idxOf ':' = name.length + 1 := by
  have hFront : ':' ∉ '/' :: name := by simpa using hName
  rw [List.idxOf_append_of_notMem hFront]
  simp

/-- Writing what was read gives the part back without the colon that ends it. -/
theorem Reads.render_eq {cs : List Char} {a : Argument} (h : Reads cs a) :
    a.render = withoutColon (String.ofList cs) := by
  unfold withoutColon
  cases h with
  | operand hSlash =>
    have hKept : ¬ endsInColon (String.ofList cs) = true := by
      rw [endsInColon_iff]
      exact fun hEnds => hSlash hEnds.1
    rw [if_neg hKept]
    rfl
  | @bare name hName =>
    have hFirst : ('/' :: name).idxOf ':' = ('/' :: name).length :=
      List.idxOf_eq_length_iff.mpr (by simpa using hName)
    have hKept : ¬ endsInColon (String.ofList ('/' :: name)) = true := by
      rw [endsInColon_iff, hFirst]
      omega
    rw [if_neg hKept]
    simp [render]
  | @colon name hName =>
    have hLost : endsInColon (String.ofList ('/' :: name ++ [':'])) = true := by
      rw [endsInColon_iff, idxOf_colon hName]
      simp
    rw [if_pos hLost, String.toList_ofList, List.dropLast_concat]
    simp [render]
  | @valued name value hName hValue =>
    have hKept : ¬ endsInColon (String.ofList ('/' :: name ++ ':' :: value)) = true := by
      rw [endsInColon_iff, idxOf_colon hName]
      have hLength : value.length ≠ 0 := by simpa using hValue
      simp
      omega
    rw [if_neg hKept]
    simp [render, String.append_assoc]

/-- An argument in the right form is read from what it is written as. -/
theorem reads_render {a : Argument}
    (hName : ∀ name, a.switch? = some name → ':' ∉ name.toList)
    (hValue : a.switch? ≠ none → a.value? ≠ some "")
    (hOperand : ∀ value, a.switch? = none → a.value? = some value → value.toList.head? ≠ some '/') :
    Reads a.render.toList a := by
  match a with
  | .positional value =>
    have hReads := Reads.operand (hOperand value rfl rfl)
    rwa [String.ofList_toList] at hReads
  | .switch name none =>
    have hReads := Reads.bare (hName name rfl)
    rw [String.ofList_toList] at hReads
    simpa [render] using hReads
  | .switch name (some value) =>
    have hGiven : value.toList ≠ [] := by
      intro hEmpty
      exact hValue (by simp [switch?]) (by simpa [value?] using hEmpty)
    have hReads := Reads.valued (hName name rfl) hGiven
    rw [String.ofList_toList, String.ofList_toList] at hReads
    simpa [render] using hReads

/-- What is read from the text of an argument is the argument. -/
theorem ofPart_render {a : Argument} (h : Reads a.render.toList a) : ofPart a.render = a := by
  have hRead := reads_iff.mp h
  rwa [String.ofList_toList] at hRead

end Argument

-- ---------------------------------------------------------------------------
-- Lists of parts and of arguments
-- ---------------------------------------------------------------------------

/-- Classified parts are well formed: the first one is the program, and the others are read one by
one. -/
theorem wellFormed_classify (ps : List String) : WellFormed (classify ps) := by
  cases ps with
  | nil => exact ⟨by simp [classify], by simp [classify], by simp [classify], by simp [classify],
      by simp [classify]⟩
  | cons program rest =>
    have hReads : ∀ a ∈ rest.map Argument.ofPart, ∃ cs, Argument.Reads cs a := by
      intro a ha
      obtain ⟨part, -, rfl⟩ := List.mem_map.mp ha
      exact ⟨part.toList, Argument.reads_ofPart part⟩
    refine ⟨?_, ?_, ?_, ?_, ?_⟩
    · simp [classify, Argument.switch?]
    · intro a ha hPositional
      rcases List.mem_cons.mp ha with rfl | ha
      · simp [Argument.value?]
      · exact (hReads a ha).choose_spec.given hPositional
    · intro a ha name hSwitch
      rcases List.mem_cons.mp ha with rfl | ha
      · simp [Argument.switch?] at hSwitch
      · exact (hReads a ha).choose_spec.name hSwitch
    · intro a ha hSwitch
      rcases List.mem_cons.mp ha with rfl | ha
      · simp [Argument.switch?] at hSwitch
      · exact (hReads a ha).choose_spec.value hSwitch
    · intro a ha value hPositional hValue
      exact (hReads a ha).choose_spec.operand_head hPositional hValue

/-- Written again, classified parts are the parts without the colons that mark no value. -/
theorem render_classify (ps : List String) : render (classify ps) = withoutColons ps := by
  cases ps with
  | nil => rfl
  | cons program rest =>
    have hRest (part : String) : (Argument.ofPart part).render = withoutColon part := by
      have hRender := (Argument.reads_ofPart part).render_eq
      rwa [String.ofList_toList] at hRender
    have hProgram : (Argument.positional program).render = program := rfl
    rw [classify, render, List.map_cons, hProgram, List.map_map, withoutColons]
    exact congrArg (program :: ·) (List.map_congr_left fun part _ => hRest part)

/-- Well-formed arguments are read back from what they are written as. -/
theorem classify_render {args : List Argument} (h : WellFormed args) :
    classify (render args) = args := by
  cases args with
  | nil => rfl
  | cons program rest =>
    have hProgram : .positional program.render = program := by
      match program, h.program program rfl with
      | .positional value, _ => rfl
    have hRest : ∀ a ∈ rest, Argument.ofPart a.render = a := by
      intro a ha
      have hMem : a ∈ program :: rest := List.mem_cons_of_mem program ha
      exact Argument.ofPart_render (Argument.reads_render (h.names a hMem) (h.values a hMem)
        (h.operands a ha))
    rw [render, List.map_cons, classify, hProgram, List.map_map]
    exact congrArg (program :: ·) ((List.map_congr_left hRest).trans (List.map_id rest))

/-- Parts are read as one argument each, and the first as the program. Writing the arguments gives
the parts back without the colons that end them, and any well-formed arguments are read from what
they are written as. So parts are read alike when they differ in such colons only. -/
theorem classify_inverts_render :
    (∀ ps, (classify ps).length = ps.length ∧
      (classify ps).head? = ps.head?.map Argument.positional ∧ WellFormed (classify ps) ∧
      render (classify ps) = withoutColons ps) ∧
    (∀ args, WellFormed args → classify (render args) = args) ∧
    ∀ ps qs, classify ps = classify qs ↔ withoutColons ps = withoutColons qs := by
  refine ⟨?_, fun args => classify_render, ?_⟩
  · intro ps
    refine ⟨length_classify ps, ?_, wellFormed_classify ps, render_classify ps⟩
    cases ps <;> rfl
  · intro ps qs
    constructor
    · intro hAlike
      rw [← render_classify, ← render_classify, hAlike]
    · intro hAlike
      rw [← classify_render (wellFormed_classify ps), ← classify_render (wellFormed_classify qs),
        render_classify, render_classify, hAlike]

example : classify ["csc:", "/a:", "/:", "/b:c:", "", "x:"] =
    [.positional "csc:", .switch "a" none, .switch "" none, .switch "b" (some "c:"),
      .positional "", .positional "x:"] := by decide

end BuildDigest.CommandLine
