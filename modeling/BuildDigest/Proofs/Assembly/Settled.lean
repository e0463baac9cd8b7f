import BuildDigest.Proofs.Assembly.Advance
import BuildDigest.Proofs.Tree.Kept

/-!
# What is closed stays as it is

A node that is closed is out of reach for all later events, and so is all that stands
below it: whatever is logged goes below the innermost open node, and whatever is
filed goes into the folders of an open project. A part that finished is closed. The
end of the build closes all parts, those included that never finish.

* `Settled` — a node is not open, and no open node owns it.
* `Represents.settled_steps` — such a node stays as it is.
* `Represents.kept_steps` — every answer about a closed node stays as it is.
* `Represents.closed_of_finished` — a finished part is closed.
* `Represents.kept_endBuild` — the end of the build changes no part.
-/

namespace BuildDigest

namespace Assembly

variable {a a' : Assembly} {l : Ledger} {c i j : Nat} {e : Event} {events : List Event}

theorem Represents.wellFormed (h : a.Represents l) : a.tree.WellFormed := by
  rcases h with ⟨-, hEmpty, -⟩ | ⟨i, hOpened⟩
  · rw [hEmpty]
    exact Tree.wellFormed_empty
  · exact hOpened.tree.standing.wellFormed

/-- An assembly with nodes has open ones. -/
theorem Represents.opened (h : a.Represents l) (hj : j < a.tree.size) : ∃ i, a.Opened i l := by
  rcases h with ⟨-, hEmpty, -⟩ | hOpened
  · rw [hEmpty] at hj
    exact absurd hj (Nat.not_lt_zero j)
  · exact hOpened

-- ---------------------------------------------------------------------------
-- Nodes that nothing open owns
-- ---------------------------------------------------------------------------

/-- A node stands neither open nor in the folders of an open node. -/
def Settled (a : Assembly) (c : Nat) : Prop :=
  c < a.tree.size ∧ ∀ p ∈ a.openNodes, a.tree.owner c ≠ some p

/-- A node that is not open and that no open node owns stays as it is, whatever an event does. -/
theorem Advances.settled (h : a.Advances a') (hWf : a.tree.WellFormed) (hc : a.Settled c) :
    a'.tree.nodes[c]? = a.tree.nodes[c]? ∧ a'.Settled c := by
  obtain ⟨hSize, hOwner⟩ := hc
  -- the owner was there before and is not open, so it is out of reach
  have hReach : ∀ p, a.tree.owner c = some p → ¬ a.Reaches p := by
    rintro p hp (hOpen | hNew)
    · exact hOwner p hOpen hp
    · have hMem : p ∈ c :: a.tree.trail c := List.mem_of_find?_eq_some hp
      exact absurd (hWf.lt_size_of_mem_open hSize hMem) (Nat.not_lt.mpr hNew)
  refine ⟨h.edits.nodes_eq hWf hSize hReach, Nat.lt_of_lt_of_le hSize (h.edits.size_le hWf), ?_⟩
  intro p hp hOwn
  rw [(h.edits.spares hWf (Nat.zero_lt_of_lt hSize)).owner_eq hWf hSize] at hOwn
  exact hReach p hOwn (h.openNodes p hp)

/-- A settled node stays as it is. -/
theorem Represents.settled_steps (h : a.Represents l) (hTextual : ∀ e ∈ events, e.Textual)
    (hSteps : a.steps events = .ok a') (hc : a.Settled c) :
    a'.tree.nodes[c]? = a.tree.nodes[c]? ∧ a'.Settled c := by
  apply h.steps_induction (motive := fun b =>
    b.tree.nodes[c]? = a.tree.nodes[c]? ∧ b.Settled c) hTextual hSteps ⟨rfl, hc⟩
  intro b b' l' hb hAdvances hBefore
  obtain ⟨hNode, hSettled⟩ := hAdvances.settled hb.wellFormed hBefore.2
  exact ⟨hNode.trans hBefore.1, hSettled⟩

/-- What stands below a logged node is owned by this node or by one below it. -/
theorem mem_of_owner {t : Tree} (hWf : t.WellFormed) (hLogged : t.LoggedAt j) {p : Nat}
    (hj : j ∈ c :: t.trail c) (hOwner : t.owner c = some p) : j ∈ p :: t.trail p := by
  -- going up from `c`, the first logged node is met at `j` or before
  induction c using hWf.trail_induction with
  | top c hTop =>
    rw [Tree.trail_eq_nil hTop, List.mem_singleton] at hj
    subst hj
    rw [hLogged.owner] at hOwner
    cases hOwner
    exact List.mem_cons_self ..
  | below c q hq ih =>
    obtain ⟨n, hRow⟩ := Tree.exists_row (Tree.lt_size_of_parent? hq)
    cases hFiling : n.kind.isFiling with
    | false =>
      rw [Tree.owner_of_logged hRow hFiling] at hOwner
      cases hOwner
      exact hj
    | true =>
      rw [hWf.owner_of_filing hRow hFiling hq] at hOwner
      rw [hWf.trail_eq_cons hq, List.mem_cons] at hj
      rcases hj with rfl | hj
      · obtain ⟨m, hRow', hKind⟩ := hLogged
        rw [hRow] at hRow'
        cases hRow'
        rw [hFiling] at hKind
        cases hKind
      · exact ih hj hOwner

/-- What stands below a closed node is settled. -/
theorem Represents.settled_of_under (h : a.Represents l) (hLogged : a.tree.LoggedAt j)
    (hClosed : j ∉ a.openNodes) (hc : a.tree.Under j c) : a.Settled c := by
  refine ⟨hc.1, fun p hp hOwner => hClosed ?_⟩
  obtain ⟨i, hOpened⟩ := h.opened hc.1
  have hWf := hOpened.tree.standing.wellFormed
  -- the owner is open, and with it all that is above it
  have hAbove := mem_of_owner hWf hLogged hc.2 hOwner
  rw [hOpened.openNodes] at hp ⊢
  rcases List.mem_cons.mp hp with rfl | hp
  · exact hAbove
  · obtain ⟨js, hjs⟩ := hWf.trail_split hp
    rw [hjs]
    exact List.mem_cons_of_mem i (List.mem_append_right js hAbove)

/-- A closed node that was logged answers every question in the same way after any events. -/
theorem Represents.kept_steps (h : a.Represents l) (hTextual : ∀ e ∈ events, e.Textual)
    (hSteps : a.steps events = .ok a') (hLogged : a.tree.LoggedAt j) (hClosed : j ∉ a.openNodes) :
    a.tree.Kept a'.tree j := by
  obtain ⟨n, hRow, _⟩ := hLogged
  have hj := Tree.lt_size_of_row hRow
  obtain ⟨a'', hSteps', h'⟩ := h.steps hTextual
  rw [hSteps] at hSteps'
  cases hSteps'
  have hSame : ∀ c, a.tree.Under j c → a'.tree.nodes[c]? = a.tree.nodes[c]? := fun c hc =>
    (h.settled_steps hTextual hSteps (h.settled_of_under ⟨n, hRow, ‹_›⟩ hClosed hc)).1
  have hSize : a.tree.size ≤ a'.tree.size := by
    apply h.steps_induction (motive := fun b => a.tree.size ≤ b.tree.size) hTextual hSteps
      (Nat.le_refl _)
    exact fun b b' _ hb hAdvances hBefore =>
      Nat.le_trans hBefore (hAdvances.edits.size_le hb.wellFormed)
  exact Tree.kept_of_under hSame h.wellFormed hSize h'.wellFormed hj

-- ---------------------------------------------------------------------------
-- Parts that finished
-- ---------------------------------------------------------------------------

/-- What is open below the root is not finished. -/
def Live (a : Assembly) : Prop :=
  ∀ j ∈ a.openNodes, j ≠ 0 → a.tree.Unfinished j

theorem live_start : ({} : Assembly).Live :=
  nofun

/-- An event finishes no node that stays open. -/
theorem Advances.live (h : a.Advances a') (hWf : a.tree.WellFormed) (hLive : a.Live) :
    a'.Live := by
  intro j hj hRoot
  refine h.edits.unfinished hWf ⟨hj, hRoot⟩ hRoot ?_
  intro n hRow
  rcases h.openNodes j hj with hOpen | hNew
  · exact hLive j hOpen hRoot n hRow
  · exact absurd (Tree.lt_size_of_row hRow) (Nat.not_lt.mpr hNew)

/-- After any events, what is open below the root is not finished. -/
theorem Represents.live_steps (h : a.Represents l) (hTextual : ∀ e ∈ events, e.Textual)
    (hSteps : a.steps events = .ok a') (hLive : a.Live) : a'.Live := by
  apply h.steps_induction hTextual hSteps hLive
  exact fun b b' _ hb hAdvances => hAdvances.live hb.wellFormed

theorem isLogged_of_isPart {n : Node} (hn : a.tree.nodes[j]? = some n)
    (hPart : n.kind.isPart = true) : a.tree.LoggedAt j := by
  refine ⟨n.bare, Tree.row_eq_some_iff.mpr ⟨n, hn, rfl⟩, ?_⟩
  show n.kind.isFiling = false
  cases hKind : n.kind <;> rw [hKind] at hPart <;> first | rfl | cases hPart

/-- Only the root is a build, so a part is below it. -/
theorem Opened.ne_zero_of_isPart (h : a.Opened i l) {n : Node} (hn : a.tree.nodes[j]? = some n)
    (hPart : n.kind.isPart = true) : j ≠ 0 := by
  rintro rfl
  obtain ⟨m, hRow, hKind⟩ := h.tree.standing.root
  obtain ⟨m, hm, rfl⟩ := Tree.row_eq_some_iff.mp hRow
  rw [hn] at hm
  cases hm
  have hKind : n.kind = .build := hKind
  rw [hKind] at hPart
  cases hPart

/-- A part that finished is closed. -/
theorem Represents.closed_of_finished (h : a.Represents l) (hLive : a.Live) {n : Node}
    (hn : a.tree.nodes[j]? = some n) (hPart : n.kind.isPart = true)
    (hFinished : n.finished.holds = true) : j ∉ a.openNodes := by
  intro hOpen
  obtain ⟨i, hOpened⟩ := h.opened (Array.getElem?_eq_some_iff.mp hn).1
  have hUnfinished : n.finished = .bool false :=
    hLive j hOpen (hOpened.ne_zero_of_isPart hn hPart) n.bare
      (Tree.row_eq_some_iff.mpr ⟨n, hn, rfl⟩)
  rw [hUnfinished] at hFinished
  cases hFinished

/-- The end of the build changes no part, and leaves none open. -/
theorem Represents.kept_endBuild (h : a.Represents l) (e : Event) {n : Node}
    (hn : a.tree.nodes[j]? = some n) (hPart : n.kind.isPart = true) :
    a.tree.Kept (a.endBuild e).tree j ∧ j ∉ (a.endBuild e).openNodes := by
  have hj : j < a.tree.size := (Array.getElem?_eq_some_iff.mp hn).1
  obtain ⟨i, hOpened⟩ := h.opened hj
  have hZero := hOpened.ne_zero_of_isPart hn hPart
  have hTree : (a.endBuild e).tree = a.tree.change 0 (Tree.finishing e.succeeded) := by
    rw [Assembly.endBuild, hOpened.current]
    rfl
  refine ⟨?_, fun hOpen => hZero (List.mem_singleton.mp hOpen)⟩
  have hWf := hOpened.tree.standing.wellFormed
  rw [hTree]
  apply Tree.kept_of_under _ hWf (by rw [Tree.size_change])
    (Tree.wellFormed_change (Tree.keeps_finishing _) hWf 0) hj
  intro c hc
  refine Tree.nodes_change ?_ _
  rintro rfl
  have hAt := hc.2
  rw [hOpened.tree.standing.trail_zero, List.mem_singleton] at hAt
  exact hZero hAt

end Assembly

end BuildDigest
