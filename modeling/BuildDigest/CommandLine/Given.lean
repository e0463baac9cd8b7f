import BuildDigest.CommandLine.Argument
import BuildDigest.Fault

/-!
# Command lines given as values

A caller may give any value for a line or for its parts. A line is gone through
element by element: the elements of a text are its characters, and those of a list
or an object take the part of characters. An element that is no single character
belongs to a part like any other; a part is the text of its elements, so it fails
on one that is no text.

Main definitions.
* `partsOf` — the parts of a line.
* `Invocation.ofParts` — the program and the arguments of parts.
* `describe` — both of a line, as a value.

Main results: `partsOf_text` and `Invocation.ofParts_map_text` — lines and parts that are texts
are read as such.
-/

namespace BuildDigest.CommandLine

-- ---------------------------------------------------------------------------
-- Parts
-- ---------------------------------------------------------------------------

/-- What an element of a line is for, unless a backslash precedes it. -/
inductive Role
  | backslash
  | gap
  | quote
  | content
  deriving DecidableEq, Repr

def Role.ofChar (c : Char) : Role :=
  if c = '\\' then .backslash
  else if isGap c then .gap
  else if c = '"' then .quote
  else .content

/-- What an element of a line is for. Lists and objects are refused. -/
def Role.ofElement : Value → Except Fault Role
  | .text s =>
    match s.toList with
    | [c] => .ok (.ofChar c)
    | _ => .ok .content
  | .list vs => .error (.notKey (Value.list vs).kind)
  | .object fields => .error (.notKey (Value.object fields).kind)
  | _ => .ok .content

def element (c : Char) : Value :=
  .text (String.singleton c)

/-- What a backslash and the element after it add to a part, the last one first. Null is no
element here. -/
def afterBackslash : Value → List Value
  | .null => [element '\\']
  | .text s => if s = "\"" then [element '"'] else [.text s, element '\\']
  | v => [v, element '\\']

/-- The text of the elements of a part, counted from a number on. -/
def joinFrom (position : Nat) : List Value → Except Fault String
  | [] => .ok ""
  | .text s :: rest => (joinFrom (position + 1) rest).map (s ++ ·)
  | v :: _ => .error (.notPiece position v.kind)

/-- The part that ends with the elements gathered, the last one first, in front of the
parts after it. A part without elements is none. -/
def close (gathered : List Value) (after : Except Fault (List String)) :
    Except Fault (List String) :=
  if gathered.isEmpty then after
  else
    match joinFrom 0 gathered.reverse with
    | .error fault => .error fault
    | .ok part => after.map (part :: ·)

/-- The parts of elements. The flags tell whether they follow an open quote and a backslash,
and `gathered` are the elements of the part in front of them, the last one first. -/
def scan (quoted escaping : Bool) (gathered : List Value) :
    List Value → Except Fault (List String)
  | [] => close (if escaping then element '\\' :: gathered else gathered) (.ok [])
  | v :: rest =>
    if escaping then scan quoted false (afterBackslash v ++ gathered) rest
    else
      match Role.ofElement v with
      | .error fault => .error fault
      | .ok .backslash => scan quoted true gathered rest
      | .ok .quote => scan (!quoted) false gathered rest
      | .ok .content => scan quoted false (v :: gathered) rest
      | .ok .gap =>
        if quoted then scan quoted false (v :: gathered) rest
        else close gathered (scan quoted false [] rest)

def partsOf (line : Value) : Except Fault (List String) :=
  match line.elements with
  | .error fault => .error fault
  | .ok vs => scan false false [] vs

-- ---------------------------------------------------------------------------
-- Arguments
-- ---------------------------------------------------------------------------

/-- A call of a program. The program may be any value. -/
structure Invocation where
  program : Value
  operands : List Argument
  deriving Repr

/-- The arguments of parts after the first, which have to be texts. -/
def operandsOf : List Value → Except Fault (List Argument)
  | [] => .ok []
  | v :: rest =>
    match v.asText .startsWith with
    | .error fault => .error fault
    | .ok part => (operandsOf rest).map (Argument.ofPart part :: ·)

/-- The call that parts are, if they have a program. -/
def Invocation.ofParts (parts : Value) : Except Fault (Option Invocation) :=
  match parts.elements with
  | .error fault => .error fault
  | .ok [] => .ok none
  | .ok (.null :: _) => .ok none
  | .ok (program :: rest) => (operandsOf rest).map fun operands => some ⟨program, operands⟩

/-- The program and the arguments of a call as values. -/
def Invocation.toValues (call : Invocation) : List Value :=
  .object [("switch", .null), ("value", call.program)] :: call.operands.map Argument.toValue

/-- The parts and the arguments of a line as a value. -/
def describe (line : Value) : Except Fault Value :=
  (partsOf line).map fun parts =>
    .object
      [ ("parts", .list (parts.map .text)),
        ("arguments", .list ((classify parts).map Argument.toValue)) ]

-- ---------------------------------------------------------------------------
-- Texts
-- ---------------------------------------------------------------------------

theorem joinFrom_map_element (position : Nat) (cs : List Char) :
    joinFrom position (cs.map element) = .ok (String.ofList cs) := by
  induction cs generalizing position with
  | nil => rfl
  | cons c rest ih =>
    show (joinFrom (position + 1) (rest.map element)).map (String.singleton c ++ ·) = _
    rw [ih]
    simp [Except.map]

/-- A part of single characters is their text. -/
theorem close_map_element (cs : List Char) (after : List String) :
    close (cs.map element).reverse (.ok after) =
      .ok ((finish cs).map String.ofList ++ after) := by
  unfold close finish
  cases cs with
  | nil => rfl
  | cons c rest =>
    have h : ((c :: rest).map element).reverse.isEmpty = false := by simp
    rw [h, List.reverse_reverse, joinFrom_map_element]
    simp [Except.map]

theorem afterBackslash_element (c : Char) :
    afterBackslash (element c) = ((escaped c).map element).reverse := by
  have h : String.singleton c = "\"" ↔ c = '"' := by
    constructor
    · intro h
      have := congrArg String.toList h
      simpa using this
    · rintro rfl; rfl
  by_cases hc : c = '"'
  · subst hc; rfl
  · have : ¬ String.singleton c = "\"" := fun e => hc (h.1 e)
    simp [afterBackslash, element, escaped, hc, this]

theorem Role.ofElement_element (c : Char) : Role.ofElement (element c) = .ok (.ofChar c) := by
  simp [Role.ofElement, element]

/-- A character in front of elements, unless it is a backslash. -/
theorem scan_element_cons {c : Char} (h : c ≠ '\\') (quoted : Bool) (before : List Char)
    (rest : List Value) :
    scan quoted false (before.map element).reverse (element c :: rest) =
      match markOf c with
      | .keep text => scan quoted false ((before ++ text).map element).reverse rest
      | .quote => scan (!quoted) false (before.map element).reverse rest
      | .gap c =>
        if quoted then scan quoted false ((before ++ [c]).map element).reverse rest
        else close (before.map element).reverse (scan quoted false [] rest) := by
  rw [scan, if_neg (by simp), Role.ofElement_element]
  unfold Role.ofChar markOf
  by_cases gap : isGap c = true
  · simp [h, gap]
  · by_cases quote : c = '"'
    · subst quote
      simp [isGap]
    · simp [h, gap, quote]

/-- Elements are scanned as marks are gathered: after the characters of a part and in or
outside quotes, they give the parts that the marks give. -/
def ScansAs (vs : List Value) (ms : List Mark) : Prop :=
  ∀ (quoted : Bool) (before : List Char),
    scan quoted false (before.map element).reverse vs =
      .ok ((finish (before ++ (gather quoted ms).1) ++ (gather quoted ms).2).map String.ofList)

theorem ScansAs.nil : ScansAs [] [] := by
  intro quoted before
  rw [scan, if_neg (by simp), close_map_element]
  simp [gather]

theorem ScansAs.cons {c : Char} (h : c ≠ '\\') {vs : List Value} {ms : List Mark}
    (ih : ScansAs vs ms) : ScansAs (element c :: vs) (markOf c :: ms) := by
  intro quoted before
  rw [scan_element_cons h]
  cases markOf c with
  | keep text =>
    simp only [gather]
    rw [ih]
    simp
  | quote => exact ih _ _
  | gap c =>
    cases quoted with
    | true =>
      simp only [gather, if_true]
      rw [ih]
      simp
    | false =>
      have := ih false []
      simp only [List.map_nil, List.reverse_nil, List.nil_append] at this
      simp [gather, this, close_map_element]

theorem ScansAs.escaped {d : Char} {vs : List Value} {ms : List Mark} (ih : ScansAs vs ms) :
    ScansAs (element '\\' :: element d :: vs) (.keep (escaped d) :: ms) := by
  intro quoted before
  rw [scan, if_neg (by simp), Role.ofElement_element]
  simp only [Role.ofChar, if_true, scan, afterBackslash_element]
  rw [← List.reverse_append, ← List.map_append, ih]
  simp [gather]

/-- Elements that are characters are scanned as their marks are gathered. -/
theorem scansAs_marks (line : List Char) : ScansAs (line.map element) (marks line) := by
  induction line using marks.induct with
  | case1 => exact .nil
  | case2 c =>
    by_cases h : c = '\\'
    · subst h
      intro quoted before
      rw [List.map_cons, scan, if_neg (by simp), Role.ofElement_element]
      have := close_map_element (before ++ ['\\']) []
      simp only [List.map_append, List.map_cons, List.map_nil, List.reverse_append,
        List.reverse_cons, List.reverse_nil, List.nil_append, List.cons_append,
        List.append_nil] at this
      simpa [Role.ofChar, scan, marks, markOf, gather, isGap] using this
    · exact .cons h .nil
  | case3 d rest ih =>
    rw [marks, if_pos rfl]
    exact .escaped ih
  | case4 c d rest h ih =>
    rw [marks, if_neg h]
    exact .cons h ih

/-- The parts of a text are those of its characters. -/
theorem partsOf_text (line : String) : partsOf (.text line) = .ok (parts line) := by
  have := scansAs_marks line.toList false []
  rw [partsOf, Value.elements]
  show scan false false [] (line.toList.map element) = _
  simpa [parts, partChars] using this

theorem operandsOf_map_text (parts : List String) :
    operandsOf (parts.map .text) = .ok (parts.map Argument.ofPart) := by
  induction parts with
  | nil => rfl
  | cons part rest ih => simp [operandsOf, ih, Except.map]

/-- Parts that are texts are the program and the arguments of a call. -/
theorem Invocation.ofParts_map_text (program : String) (rest : List String) :
    Invocation.ofParts (.list ((program :: rest).map .text)) =
      .ok (some ⟨.text program, rest.map Argument.ofPart⟩) := by
  simp [Invocation.ofParts, operandsOf_map_text, Except.map]

end BuildDigest.CommandLine
