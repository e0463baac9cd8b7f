/-!
# Patterns

A pattern is tried on a text from the first character on. Where it leaves a choice, how far
a stretch goes or whether a part is there at all, one way is tried first, and the others in
turn when what comes after it in the pattern cannot follow.

Main definitions.
* `Pattern` — patterns.
* `Pattern.run` — a try of a pattern and of what is to follow it.
* `Pattern.match?` — the groups of a text that starts with what a pattern describes.
-/

namespace BuildDigest.Text

/-- The description of a text. -/
inductive Pattern
  | empty
  /-- The end of the text, or the place in front of a line feed that ends it. -/
  | finish
  /-- One character of a class. -/
  | one (accepts : Char → Bool)
  /-- A stretch of characters of a class. The longest is tried first. -/
  | most (accepts : Char → Bool)
  /-- A stretch of characters of a class. The shortest is tried first. -/
  | fewest (accepts : Char → Bool)
  | both (first second : Pattern)
  /-- What may be there or not. That it is there is tried first. -/
  | optional (p : Pattern)
  /-- What is remembered under a name. -/
  | group (name : String) (p : Pattern)

namespace Pattern

/-- A stretch of a text that is remembered: what follows its start and what follows its end. -/
structure Group where
  name : String
  start : List Char
  stop : List Char
  deriving DecidableEq, Repr

def Group.text (g : Group) : String :=
  String.ofList (g.start.take (g.start.length - g.stop.length))

/-- A place in a text. -/
structure Place where
  /-- What follows the place. -/
  rest : List Char
  /-- The groups in front of the place, the last one first. -/
  groups : List Group := []
  deriving DecidableEq, Repr

/-- The text of a group, empty if there is none. -/
def Place.textOf (here : Place) (name : String) : String :=
  ((here.groups.find? (·.name == name)).map Group.text).getD ""

section

variable {α : Type}

/-- Tries what is to follow a stretch at its ends, the last one first. -/
def tryMost (accepts : Char → Bool) (next : List Char → Option α) : List Char → Option α
  | [] => next []
  | c :: rest =>
    if accepts c then
      match tryMost accepts next rest with
      | some found => some found
      | none => next (c :: rest)
    else next (c :: rest)

/-- Tries what is to follow a stretch at its ends, the first one first. -/
def tryFewest (accepts : Char → Bool) (next : List Char → Option α) : List Char → Option α
  | [] => next []
  | c :: rest =>
    match next (c :: rest) with
    | some found => some found
    | none => if accepts c then tryFewest accepts next rest else none

/-- Tries a pattern at a place, and at the places behind it what is to follow. -/
def run : Pattern → (Place → Option α) → Place → Option α
  | .empty, next, here => next here
  | .finish, next, here => if here.rest = [] ∨ here.rest = ['\n'] then next here else none
  | .one accepts, next, here =>
    match here.rest with
    | [] => none
    | c :: rest => if accepts c then next { here with rest } else none
  | .most accepts, next, here =>
    tryMost accepts (fun rest => next { here with rest }) here.rest
  | .fewest accepts, next, here =>
    tryFewest accepts (fun rest => next { here with rest }) here.rest
  | .both first second, next, here => first.run (second.run next) here
  | .optional p, next, here =>
    match p.run next here with
    | some found => some found
    | none => next here
  | .group name p, next, here =>
    p.run (fun there =>
      next { there with groups := ⟨name, here.rest, there.rest⟩ :: there.groups }) here

end

/-- The place behind the start of a text that a pattern describes. -/
def match? (p : Pattern) (text : String) : Option Place :=
  p.run some { rest := text.toList }

/-- Patterns one after the other. -/
def all : List Pattern → Pattern
  | [] => .empty
  | p :: rest => .both p (all rest)

/-- A stretch of at least one character of a class. The shortest is tried first. -/
def fewestOfOne (accepts : Char → Bool) : Pattern :=
  .both (.one accepts) (.fewest accepts)

end Pattern

end BuildDigest.Text
