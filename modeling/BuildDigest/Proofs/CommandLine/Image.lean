import BuildDigest.CommandLine.Part
import Mathlib.Algebra.Group.Nat.Even
import Mathlib.Data.List.Induction
import Mathlib.Tactic.Tauto

/-!
# Which parts a command line can have

A backslash takes the character after it along, so not every text can be a part.
The texts that can be are told apart by the parity of their runs of backslashes:
a double quote stands after an even run, and only the last part of a line may end
in an odd one.

* `Attainable` — lists of parts that satisfy these parity conditions.
* `encode` — a line for a list of parts: every part in quotes, single spaces
  between them.
* `Units` — the grammar of a part, in which characters and backslash pairs are
  the units. It carries both inductions: gathering yields nothing else
  (`unitsAll_gather`), and what is written for it is read back
  (`gather_escapeQuotes`).

The main result is `exists_parts_eq_iff_attainable`.
-/

namespace BuildDigest.CommandLine

/-- The length of the run of backslashes at the end of a text. -/
def trailing (cs : List Char) : Nat :=
  (cs.reverse.takeWhile (· == '\\')).length

/-- The lists of parts whose runs of backslashes have the right parity. -/
structure Attainable (ps : List String) : Prop where
  nonempty : ∀ p ∈ ps, p ≠ ""
  /-- Whatever precedes a double quote ends in an even run of backslashes. -/
  quotes : ∀ p ∈ ps, ∀ before after, p.toList = before ++ '"' :: after → Even (trailing before)
  ends : ∀ p ∈ ps.dropLast, Even (trailing p.toList)

/-- A part with a backslash in front of every double quote. -/
def escapeQuotes (part : List Char) : List Char :=
  part.flatMap fun c => if c = '"' then ['\\', '"'] else [c]

/-- The closing quote of the last part, left out after an odd run of backslashes. -/
def closing (part : List Char) : List Char :=
  if Even (trailing part) then ['"'] else []

/-- A line with given parts. -/
def encodeChars : List (List Char) → List Char
  | [] => []
  | [p] => '"' :: escapeQuotes p ++ closing p
  | p :: rest => '"' :: escapeQuotes p ++ '"' :: ' ' :: encodeChars rest

/-- A line with given parts. -/
def encode (ps : List String) : String :=
  String.ofList (encodeChars (ps.map String.toList))

-- ---------------------------------------------------------------------------
-- Runs of backslashes
-- ---------------------------------------------------------------------------

theorem trailing_append_singleton (cs : List Char) (c : Char) :
    trailing (cs ++ [c]) = if c = '\\' then trailing cs + 1 else 0 := by
  simp only [trailing, List.reverse_append, List.reverse_singleton, List.singleton_append,
    List.takeWhile_cons]
  by_cases hc : c = '\\' <;> simp [hc]

theorem trailing_cons {c : Char} (hc : c ≠ '\\') (cs : List Char) :
    trailing (c :: cs) = trailing cs := by
  induction cs using List.reverseRecOn with
  | nil => simp [trailing, hc]
  | append_singleton cs d ih =>
    rw [← List.cons_append, trailing_append_singleton, trailing_append_singleton, ih]

/-- A backslash with the character behind it changes the run at the end by two backslashes or by
none. -/
theorem even_trailing_pair (c : Char) (cs : List Char) :
    Even (trailing ('\\' :: c :: cs)) ↔ Even (trailing cs) := by
  induction cs using List.reverseRecOn with
  | nil =>
    have h : trailing ['\\', c] = if c = '\\' then 2 else 0 := by
      rw [show ['\\', c] = ['\\'] ++ [c] from rfl, trailing_append_singleton]
      rfl
    rw [h]
    split <;> decide
  | append_singleton cs d ih =>
    rw [show '\\' :: c :: (cs ++ [d]) = ('\\' :: c :: cs) ++ [d] from rfl,
      trailing_append_singleton, trailing_append_singleton]
    by_cases hd : d = '\\'
    · simp only [if_pos hd, Nat.even_add_one, ih]
    · simp only [if_neg hd]

/-- Double quotes stand after even runs of backslashes only. -/
def QuotesEven (cs : List Char) : Prop :=
  ∀ before after, cs = before ++ '"' :: after → Even (trailing before)

theorem quotesEven_nil : QuotesEven [] := by
  intro before after h
  simp at h

/-- In front of another character than a backslash, double quotes stand after even runs as
before. -/
theorem quotesEven_cons {c : Char} (hc : c ≠ '\\') (cs : List Char) :
    QuotesEven (c :: cs) ↔ QuotesEven cs := by
  constructor
  · intro h before after hcs
    rw [← trailing_cons hc before]
    exact h (c :: before) after (by rw [hcs, List.cons_append])
  · intro h before after hcs
    cases before with
    | nil => exact ⟨0, rfl⟩
    | cons b before =>
      rw [List.cons_append, List.cons.injEq] at hcs
      obtain ⟨rfl, hcs⟩ := hcs
      rw [trailing_cons hc]
      exact h before after hcs

/-- A backslash takes the next character with it, which then must be no double quote; the runs
behind them count as before. -/
theorem quotesEven_pair (c : Char) (cs : List Char) :
    QuotesEven ('\\' :: c :: cs) ↔ c ≠ '"' ∧ QuotesEven cs := by
  constructor
  · intro h
    refine ⟨?_, ?_⟩
    · rintro rfl
      -- the quote would stand after a single backslash
      have hOne := h ['\\'] cs rfl
      exact absurd hOne (by decide)
    · intro before after hcs
      rw [← even_trailing_pair c before]
      exact h ('\\' :: c :: before) after (by rw [hcs]; rfl)
  · rintro ⟨hc, h⟩ before after hcs
    match before, hcs with
    | [], hcs => simp at hcs
    | [_], hcs =>
      simp only [List.cons_append, List.nil_append, List.cons.injEq] at hcs
      exact absurd hcs.2.1 hc
    | a :: b :: before, hcs =>
      simp only [List.cons_append, List.cons.injEq] at hcs
      obtain ⟨rfl, rfl, hcs⟩ := hcs
      rw [even_trailing_pair]
      exact h before after hcs

-- ---------------------------------------------------------------------------
-- The grammar of a part
-- ---------------------------------------------------------------------------

/-- Texts made of single characters and of backslashes with the character after them, which is
no double quote. The flag tells whether a lone backslash stands at the end. -/
inductive Units : Bool → List Char → Prop
  | nil : Units false []
  | lone : Units true ['\\']
  | plain {c : Char} {dangling : Bool} {cs : List Char} (hc : c ≠ '\\') :
      Units dangling cs → Units dangling (c :: cs)
  | pair {c : Char} {dangling : Bool} {cs : List Char} (hc : c ≠ '"') :
      Units dangling cs → Units dangling ('\\' :: c :: cs)

/-- In units every backslash has a character behind it, so no double quote comes after an odd
run. -/
theorem Units.quotesEven {dangling : Bool} {cs : List Char} (h : Units dangling cs) :
    QuotesEven cs := by
  induction h with
  | nil => exact quotesEven_nil
  | lone =>
    intro before after hcs
    match before, hcs with
    | [], hcs => simp at hcs
    | _ :: _, hcs => simp at hcs
  | plain hc _ ih => exact (quotesEven_cons hc _).2 ih
  | pair hc _ ih => exact (quotesEven_pair _ _).2 ⟨hc, ih⟩

/-- The flag is the parity of the run of backslashes at the end. -/
theorem Units.even_trailing {dangling : Bool} {cs : List Char} (h : Units dangling cs) :
    Even (trailing cs) ↔ dangling = false := by
  induction h with
  | nil => decide
  | lone => decide
  | plain hc _ ih => rw [trailing_cons hc, ih]
  | pair _ _ ih => rw [even_trailing_pair, ih]

/-- Every text with double quotes after even runs only is made of units. -/
theorem exists_units {cs : List Char} (h : QuotesEven cs) : ∃ dangling, Units dangling cs := by
  induction cs using marks.induct with
  | case1 => exact ⟨false, .nil⟩
  | case2 c =>
    by_cases hc : c = '\\'
    · exact ⟨true, hc ▸ .lone⟩
    · exact ⟨false, .plain hc .nil⟩
  | case3 d rest ih =>
    obtain ⟨hd, hRest⟩ := (quotesEven_pair d rest).1 h
    obtain ⟨dangling, hUnits⟩ := ih hRest
    exact ⟨dangling, .pair hd hUnits⟩
  | case4 c d rest hc ih =>
    obtain ⟨dangling, hUnits⟩ := ih ((quotesEven_cons hc _).1 h)
    exact ⟨dangling, .plain hc hUnits⟩

/-- Parts made of units, of which only the last may end in a lone backslash. -/
def UnitsAll : List (List Char) → Prop
  | [] => True
  | [p] => ∃ dangling, Units dangling p
  | p :: rest => Units false p ∧ UnitsAll rest

/-- Parts after a part that ends in no lone backslash may be any parts made of units. -/
theorem unitsAll_cons {p : List Char} {ps : List (List Char)} (hp : Units false p)
    (hps : UnitsAll ps) : UnitsAll (p :: ps) := by
  cases ps with
  | nil => exact ⟨false, hp⟩
  | cons q rest => exact ⟨hp, hps⟩

theorem UnitsAll.tail {p : List Char} {ps : List (List Char)} (h : UnitsAll (p :: ps)) :
    UnitsAll ps := by
  cases ps with
  | nil => trivial
  | cons q rest => exact h.2

/-- The first part may be replaced by one that is made of units whenever it was. -/
theorem UnitsAll.mapHead {p q : List Char} {ps : List (List Char)}
    (hq : ∀ dangling, Units dangling p → Units dangling q) (h : UnitsAll (p :: ps)) :
    UnitsAll (q :: ps) := by
  cases ps with
  | nil => exact h.imp hq
  | cons r rest => exact ⟨hq false h.1, h.2⟩

/-- Texts made of units are exactly those with the right parities. -/
theorem unitsAll_iff (ps : List (List Char)) :
    UnitsAll ps ↔ (∀ p ∈ ps, QuotesEven p) ∧ ∀ p ∈ ps.dropLast, Even (trailing p) := by
  induction ps with
  | nil => simp [UnitsAll]
  | cons p rest ih =>
    cases rest with
    | nil =>
      have hOne : UnitsAll [p] ↔ QuotesEven p :=
        ⟨fun ⟨_, hp⟩ => hp.quotesEven, exists_units⟩
      simp [hOne]
    | cons q rest =>
      have hHead : Units false p ↔ QuotesEven p ∧ Even (trailing p) := by
        constructor
        · exact fun hp => ⟨hp.quotesEven, hp.even_trailing.2 rfl⟩
        · rintro ⟨hQuotes, hEven⟩
          obtain ⟨dangling, hp⟩ := exists_units hQuotes
          rwa [hp.even_trailing.1 hEven] at hp
      rw [show UnitsAll (p :: q :: rest) ↔ Units false p ∧ UnitsAll (q :: rest) from Iff.rfl, hHead,
        ih, List.dropLast_cons_cons]
      simp only [List.forall_mem_cons]
      tauto

-- ---------------------------------------------------------------------------
-- Gathering yields units
-- ---------------------------------------------------------------------------

theorem marks_cons {c : Char} (hc : c ≠ '\\') (rest : List Char) :
    marks (c :: rest) = markOf c :: marks rest := by
  cases rest with
  | nil => rfl
  | cons d rest => rw [marks, if_neg hc]

theorem marks_pair (c : Char) (rest : List Char) :
    marks ('\\' :: c :: rest) = .keep (escaped c) :: marks rest := by
  rw [marks, if_pos rfl]

/-- A character that was escaped is a unit, or two, in front of others. -/
theorem Units.escaped {dangling : Bool} {cs : List Char} (c : Char) (h : Units dangling cs) :
    Units dangling (escaped c ++ cs) := by
  unfold CommandLine.escaped
  split
  · exact .plain (by decide) h
  · exact .pair ‹_› h

/-- Empty parts are left out, and the others stay made of units. -/
theorem UnitsAll.finish {p : List Char} {ps : List (List Char)} (h : UnitsAll (p :: ps)) :
    UnitsAll (CommandLine.finish p ++ ps) := by
  unfold CommandLine.finish
  split
  · exact h.tail
  · exact h

/-- A mark that is no escape ends the part before it or comes into it as a unit, so what is gathered
stays made of units. -/
theorem unitsAll_gather_markOf {c : Char} (hc : c ≠ '\\') {ms : List Mark}
    (ih : ∀ quoted, UnitsAll ((gather quoted ms).1 :: (gather quoted ms).2)) (quoted : Bool) :
    UnitsAll ((gather quoted (markOf c :: ms)).1 :: (gather quoted (markOf c :: ms)).2) := by
  unfold markOf
  split
  · -- a gap is text inside quotes and ends the part outside
    cases quoted with
    | true => exact (ih true).mapHead fun _ h => .plain hc h
    | false => exact unitsAll_cons .nil (ih false).finish
  · split
    · exact ih (!quoted)
    · exact (ih quoted).mapHead fun _ h => .plain hc h

/-- Whatever the line, it is gathered into parts made of units. -/
theorem unitsAll_gather (line : List Char) (quoted : Bool) :
    UnitsAll ((gather quoted (marks line)).1 :: (gather quoted (marks line)).2) := by
  induction line using marks.induct generalizing quoted with
  | case1 => exact ⟨false, .nil⟩
  | case2 c =>
    by_cases hc : c = '\\'
    · subst hc
      exact ⟨true, .lone⟩
    · have hEnd : ∀ q, UnitsAll ((gather q []).1 :: (gather q []).2) := fun _ => ⟨false, .nil⟩
      exact unitsAll_gather_markOf hc hEnd quoted
  | case3 d rest ih =>
    rw [marks_pair]
    exact (ih quoted).mapHead fun _ h => h.escaped d
  | case4 c d rest hc ih =>
    rw [marks_cons hc]
    exact unitsAll_gather_markOf hc ih quoted

/-- The parts of any line are made of units, by induction on the marks of the line. -/
theorem unitsAll_partChars (line : List Char) : UnitsAll (partChars line) :=
  (unitsAll_gather line false).finish

-- ---------------------------------------------------------------------------
-- What is written is read back
-- ---------------------------------------------------------------------------

theorem escapeQuotes_cons {c : Char} (hc : c ≠ '"') (cs : List Char) :
    escapeQuotes (c :: cs) = c :: escapeQuotes cs := by
  simp [escapeQuotes, hc]

theorem escapeQuotes_quote (cs : List Char) :
    escapeQuotes ('"' :: cs) = '\\' :: '"' :: escapeQuotes cs := by
  simp [escapeQuotes]

/-- Inside quotes, a text made of units is gathered as it was before its quotes were escaped. After
a lone backslash the line ends. -/
theorem gather_escapeQuotes {dangling : Bool} {p rest : List Char} (h : Units dangling p)
    (hRest : dangling = true → rest = []) :
    gather true (marks (escapeQuotes p ++ rest)) =
      (p ++ (gather true (marks rest)).1, (gather true (marks rest)).2) := by
  induction h with
  | nil => rfl
  | lone =>
    rw [hRest rfl]
    rfl
  | @plain c _ cs hc _ ih =>
    by_cases hq : c = '"'
    · subst hq
      rw [escapeQuotes_quote, List.cons_append, List.cons_append, marks_pair, gather, ih hRest]
      rfl
    · rw [escapeQuotes_cons hq, List.cons_append, marks_cons hc]
      -- a gap is kept because of the quotes, any other character as it is
      by_cases hGap : isGap c = true
      · simp [markOf, hGap, gather, ih hRest]
      · simp [markOf, hGap, hq, gather, ih hRest]
  | @pair c _ cs hc _ ih =>
    rw [escapeQuotes_cons (by decide), escapeQuotes_cons hc, List.cons_append, List.cons_append,
      marks_pair, gather, ih hRest]
    simp [escaped, hc]

/-- A line that starts with a double quote is gathered inside quotes. -/
theorem partChars_quote (cs : List Char) :
    partChars ('"' :: cs) = finish (gather true (marks cs)).1 ++ (gather true (marks cs)).2 := by
  rw [partChars, marks_cons (by decide)]
  rfl

/-- A quoted part and a space in front of a line are one more part. -/
theorem partChars_quoted_cons {p : List Char} (h : Units false p) (hne : p ≠ [])
    (rest : List Char) :
    partChars ('"' :: escapeQuotes p ++ '"' :: ' ' :: rest) = p :: partChars rest := by
  have hRead : gather true (marks (escapeQuotes p ++ '"' :: ' ' :: rest)) = _ :=
    gather_escapeQuotes h fun hLone => absurd hLone Bool.false_ne_true
  rw [marks_cons (by decide), marks_cons (by decide)] at hRead
  rw [List.cons_append, partChars_quote, hRead]
  simp [markOf, isGap, gather, finish, hne, partChars]

/-- The last part is read back with its closing quote or, after a lone backslash, without. -/
theorem partChars_quoted_last {dangling : Bool} {p : List Char} (h : Units dangling p)
    (hne : p ≠ []) :
    partChars ('"' :: escapeQuotes p ++ closing p) = [p] := by
  have hEnd : gather true (marks (escapeQuotes p ++ closing p)) = (p, []) := by
    cases dangling with
    | true =>
      have hOdd : ¬ Even (trailing p) := by simp [h.even_trailing]
      rw [closing, if_neg hOdd, gather_escapeQuotes h fun _ => rfl]
      simp [marks, gather]
    | false =>
      rw [closing, if_pos (h.even_trailing.2 rfl), gather_escapeQuotes h fun hLone =>
        absurd hLone Bool.false_ne_true]
      simp [marks, markOf, isGap, gather]
  rw [List.cons_append, partChars_quote, hEnd]
  simp [finish, hne]

/-- A line that is written for parts made of units has these parts: each is quoted, and the last one
may miss its closing quote. -/
theorem partChars_encodeChars {ps : List (List Char)} (h : UnitsAll ps) (hne : ∀ p ∈ ps, p ≠ []) :
    partChars (encodeChars ps) = ps := by
  induction ps with
  | nil => rfl
  | cons p rest ih =>
    have hp : p ≠ [] := hne p (List.mem_cons_self ..)
    cases rest with
    | nil =>
      obtain ⟨dangling, hUnits⟩ := h
      exact partChars_quoted_last hUnits hp
    | cons q rest =>
      rw [encodeChars, partChars_quoted_cons h.1 hp,
        ih h.2 fun r hr => hne r (List.mem_cons_of_mem p hr)]
      exact nofun

-- ---------------------------------------------------------------------------
-- Parts as texts
-- ---------------------------------------------------------------------------

/-- Even runs before every double quote, and before the end of all parts but the last, come to the
same as being made of units. -/
theorem attainable_iff_unitsAll (ps : List String) :
    Attainable ps ↔ (∀ p ∈ ps, p ≠ "") ∧ UnitsAll (ps.map String.toList) := by
  rw [unitsAll_iff, ← List.map_dropLast]
  simp only [List.forall_mem_map]
  exact ⟨fun h => ⟨h.nonempty, h.quotes, h.ends⟩, fun h => ⟨h.1, h.2.1, h.2.2⟩⟩

/-- The parts of a line are attainable, because what the scan gathers is made of units. -/
theorem attainable_parts (line : String) : Attainable (parts line) := by
  rw [attainable_iff_unitsAll]
  refine ⟨?_, ?_⟩
  · intro p hp
    obtain ⟨cs, hcs, rfl⟩ := List.mem_map.mp hp
    intro hEmpty
    exact ne_nil_of_mem_partChars hcs (by simpa using congrArg String.toList hEmpty)
  · have hBack : (parts line).map String.toList = partChars line.toList := by
      simp [parts, Function.comp_def]
    rw [hBack]
    exact unitsAll_partChars _

/-- Attainable parts are the parts of the line that is written for them. -/
theorem parts_encode {ps : List String} (h : Attainable ps) : parts (encode ps) = ps := by
  obtain ⟨hNonempty, hUnits⟩ := (attainable_iff_unitsAll ps).1 h
  have hNe : ∀ cs ∈ ps.map String.toList, cs ≠ [] := by
    intro cs hcs
    obtain ⟨p, hp, rfl⟩ := List.mem_map.mp hcs
    simpa using hNonempty p hp
  rw [parts, encode, String.toList_ofList, partChars_encodeChars hUnits hNe]
  simp

/-- A list of texts is the list of parts of some line exactly when its runs of backslashes have the
right parity, and then `encode` writes such a line. -/
theorem exists_parts_eq_iff_attainable (ps : List String) :
    ((∃ line : String, parts line = ps) ↔ Attainable ps) ∧
      (Attainable ps → parts (encode ps) = ps) := by
  refine ⟨⟨?_, fun h => ⟨encode ps, parts_encode h⟩⟩, parts_encode⟩
  rintro ⟨line, rfl⟩
  exact attainable_parts line

example : parts (encode ["a b", "\\\\\"c", "d\\"]) = ["a b", "\\\\\"c", "d\\"] := by decide

end BuildDigest.CommandLine
