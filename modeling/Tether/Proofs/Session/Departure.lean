import Tether.Proofs.Session.Dismissal

namespace Tether.Session

open Time (Instant Timestamp)
open Transport (ConnectionId)

variable {κ σ : Type}

namespace Rig

variable (terms : Terms σ) [DecidableEq κ]

/-- The session ends, or is about to. -/
def Leaves (rig : Rig κ σ) : Prop :=
  rig.course.state = .closing ∨ rig.course.state = .closed ∨
    rig.course.work = .busy [] [.disconnect] ∧ rig.course.runner.stranded = false

/-- A connection, if it was opened at all, was asked to close, or the session is yet to learn of it,
or has it and is about to ask. -/
def Bound (rig : Rig κ σ) (line : ConnectionId) : Prop :=
  line ∉ rig.course.wires.opened ∨ line ∈ rig.gear.closing ∨ line ∈ rig.course.unheard ∨
    rig.course.runner.connection = some line ∧
      (.opened ∈ rig.course.work.events ∨ Lifecycle.closeForGood ∈ rig.course.work.actions ∨
        rig.course.state = .connected ∧ .disconnect ∈ rig.course.work.events)

namespace Leaves

variable {rig : Rig κ σ} (leaves : rig.Leaves)

include leaves

omit [DecidableEq κ] in
theorem ends (other : rig.course.work ≠ .busy [] [.disconnect]) :
    rig.course.state = .closing ∨ rig.course.state = .closed := by
  rcases leaves with closing | closed | ⟨about, _⟩
  · exact Or.inl closing
  · exact Or.inr closed
  · exact absurd about other

omit [DecidableEq κ] in
theorem going (settled : rig.course.Settled) : rig.course.runner.stranded = false := by
  apply Bool.eq_false_iff.mpr
  intro broken
  have parted := settled.stranded broken
  rcases leaves with closing | closed | ⟨_, going⟩
  · rw [parted] at closing
    cases closing
  · rw [parted] at closed
    cases closed
  · rw [going] at broken
    cases broken

/-- A session that ends goes on to end. -/
theorem turn (next : Turn κ σ) : (rig.turn terms next).Leaves := by
  unfold Leaves
  rcases rig.turnsTo_turn terms next with
    ⟨work, state, stranded, _⟩ | ⟨waits, _, state, _⟩ | ⟨work, _, state, _⟩ | ⟨work, _, state, _⟩ |
      ⟨work, _, state, _⟩
  · rw [work, state, stranded]
    exact leaves
  · rw [state, ← or_assoc]
    exact Or.inl (leaves.ends (by simp [waits.1]))
  · rw [state, ← or_assoc]
    exact Or.inl (leaves.ends (by simp [work]))
  · rw [state, ← or_assoc]
    left
    rcases leaves with closing | closed | ⟨about, _⟩
    · exact rig.course.runner.lifecycle.handle_ends _ (Or.inl closing)
    · exact rig.course.runner.lifecycle.handle_ends _ (Or.inr closed)
    · rw [work] at about
      cases about
      exact rig.course.runner.lifecycle.handle_disconnect
  · rw [state, ← or_assoc]
    exact Or.inl (leaves.ends (by simp [work]))

end Leaves

namespace Bound

variable {rig next : Rig κ σ} {line : ConnectionId} (bound : rig.Bound line)

include bound

omit [DecidableEq κ]

theorem of_idle (actions : rig.course.work.actions = []) (events : rig.course.work.events = []) :
    line ∉ rig.course.wires.opened ∨ line ∈ rig.gear.closing ∨ line ∈ rig.course.unheard := by
  unfold Bound at bound
  rw [actions, events] at bound
  simpa using bound

private theorem attending (waits : rig.course.Waits) (turned : rig.course.TurnsTo next.course)
    (opened : next.course.wires.opened = rig.course.wires.opened)
    (closing : next.gear.closing = rig.gear.closing) : next.Bound line := by
  unfold Bound
  rw [opened, closing]
  rcases bound.of_idle (by rw [waits.1]; rfl) (by rw [waits.1]; rfl) with absent | asked | coming
  · exact Or.inl absent
  · exact Or.inr (Or.inl asked)
  · right; right
    cases turned with
    | opening id queued connection events =>
      have first : rig.course.unheard = id :: next.course.unheard := by
        rw [Course.unheard, queued]
        rfl
      rw [first] at coming
      rcases List.mem_cons.mp coming with rfl | later
      · right
        rw [events]
        exact ⟨connection, Or.inl List.mem_cons_self⟩
      · exact Or.inl later
    | refusal reason queued _ _ =>
      left
      rw [Course.unheard, queued] at coming
      exact coming
    | other unheard _ _ _ _ =>
      rw [unheard]
      exact Or.inl coming

/-- A connection that is about to be asked is not let go before it is. -/
private theorem acting (leaves : rig.Leaves) (graceful : rig.Graceful) (sound : rig.course.Sound)
    (settled : rig.course.Settled) {action : Action} {actions : List Action} {events : List Event}
    {brought : Option Event} (work : rig.course.work = .busy (action :: actions) events)
    (left : next.course.work = .busy actions (events ++ brought.toList))
    (connection : next.course.runner.connection =
      if action = .dropTransport then none else rig.course.runner.connection)
    (unheard : next.course.unheard = rig.course.unheard)
    (opened : next.course.wires.opened = rig.course.wires.opened)
    (closing : next.gear.closing =
      (if action.asks then rig.course.runner.connection.toList else []) ++ rig.gear.closing) :
    next.Bound line := by
  unfold Bound
  rw [opened, closing, unheard, connection, left]
  rcases bound with absent | asked | coming | ⟨held, asking⟩
  · exact Or.inl absent
  · exact Or.inr (Or.inl (List.mem_append_right _ asked))
  · exact Or.inr (Or.inr (Or.inl coming))
  · rw [work] at asking
    have ending : rig.course.state = .closing := by
      rcases leaves.ends (by simp [work]) with ending | closed
      · exact ending
      · have last := (graceful.finished closed).2
        rw [work] at last
        rcases asking with opening | asks | ⟨connected, _⟩
        · rw [show events = [] from last] at opening
          cases opening
        · exact sound.closes _ _ (by rw [work]; exact asks)
        · rw [closed] at connected
          cases connected
    have keeps : action ≠ .dropTransport := by
      rintro rfl
      rcases settled.drops (by rw [work]; exact List.mem_cons_self) with parted | closed
      · rw [ending] at parted
        cases parted
      · rw [ending] at closed
        cases closed
    rw [if_neg keeps, held]
    rcases asking with opening | asks | ⟨connected, _⟩
    · exact Or.inr (Or.inr (Or.inr ⟨rfl, Or.inl (List.mem_append_left _ opening)⟩))
    · rcases List.mem_cons.mp asks with rfl | later
      · exact Or.inr (Or.inl List.mem_cons_self)
      · exact Or.inr (Or.inr (Or.inr ⟨rfl, Or.inr (Or.inl later)⟩))
    · rw [ending] at connected
      cases connected

private theorem handling (leaves : rig.Leaves) (graceful : rig.Graceful) (sound : rig.course.Sound)
    {event : Event} {events : List Event} (work : rig.course.work = .busy [] (event :: events))
    (left : next.course.work = .busy (rig.course.runner.lifecycle.handle event).2 events)
    (connection : next.course.runner.connection = rig.course.runner.connection)
    (wires : next.course.wires = rig.course.wires)
    (closing : next.gear.closing = rig.gear.closing) : next.Bound line := by
  obtain rfl := sound.alone work
  unfold Bound
  rw [wires, closing, Course.unheard, wires, connection, left]
  rcases bound with absent | asked | coming | ⟨held, asking⟩
  · exact Or.inl absent
  · exact Or.inr (Or.inl asked)
  · exact Or.inr (Or.inr (Or.inl coming))
  · refine Or.inr (Or.inr (Or.inr ⟨held, Or.inr (Or.inl ?_)⟩))
    apply Lifecycle.closeForGood_mem_handle
    rw [work] at asking
    rcases asking with opening | asks | ⟨connected, about⟩
    · left
      cases List.mem_singleton.mp opening
      rcases leaves.ends (by simp [work]) with ending | closed
      · exact ⟨ending, rfl⟩
      · have last := (graceful.finished closed).2
        rw [work] at last
        cases last
    · cases asks
    · exact Or.inr ⟨connected, (List.mem_singleton.mp about).symm⟩

/-- A session that ends asks every connection to close that it has or is yet to learn of. -/
theorem turn [DecidableEq κ] (leaves : rig.Leaves) (graceful : rig.Graceful)
    (sound : rig.course.Sound) (settled : rig.course.Settled) (next : Turn κ σ) :
    (rig.turn terms next).Bound line := by
  rcases rig.turnsTo_turn terms next with
    ⟨work, state, _, connection, _, unheard, opened, closing⟩ |
      ⟨waits, _, _, turned, _, opened, closing⟩ |
      ⟨work, left, _, connection, _, unheard, opened, closing, _⟩ |
      ⟨work, left, _, connection, wires, closing⟩ | ⟨work, _, _, _, wires, closing⟩
  · unfold Bound
    rw [work, state, connection, closing]
    rcases bound with absent | asked | coming | held
    · by_cases now : line ∈ (rig.turn terms next).course.wires.opened
      · exact Or.inr (Or.inr (Or.inl ((opened line now).resolve_left absent)))
      · exact Or.inl now
    · exact Or.inr (Or.inl asked)
    · exact Or.inr (Or.inr (Or.inl (unheard line coming)))
    · exact Or.inr (Or.inr (Or.inr held))
  · exact bound.attending waits turned opened closing
  · exact bound.acting leaves graceful sound settled work left connection unheard opened closing
  · exact bound.handling leaves graceful sound work left connection wires closing
  · unfold Bound
    rw [wires, closing, Course.unheard, wires]
    rcases bound.of_idle (by rw [work]; rfl) (by rw [work]; rfl) with absent | asked | coming
    · exact Or.inl absent
    · exact Or.inr (Or.inl asked)
    · exact Or.inr (Or.inr (Or.inl coming))

end Bound

theorem play_append (rig : Rig κ σ) (earlier later : List (Turn κ σ)) :
    rig.play terms (earlier ++ later) = (rig.play terms earlier).play terms later :=
  List.foldl_append

/-- A session that is told to end does so, and parts from every connection that it has or gets. -/
theorem bound_dismissal {rig : Rig κ σ} (ready : rig.Ready) (waits : rig.course.Waits)
    {line : ConnectionId} (concerned : rig.course.runner.connection = some line ∨
      line ∈ rig.course.unheard ∨ line ∉ rig.course.wires.opened) :
    (rig.turn terms (.take .disconnect)).Leaves ∧
      (rig.turn terms (.take .disconnect)).Bound line := by
  have attends : rig.course.turn terms (.take .disconnect) = rig.course.attend terms .disconnect :=
    Course.turn_take_of_waits terms waits
  have suits := ready.suits_of_waiting waits
  have closing := rig.closing_take terms .disconnect
  unfold Leaves Bound
  rw [closing]
  simp only [turn, attends, Course.attend]
  refine ⟨Or.inr (Or.inr ⟨rfl, (Course.waits_iff.mp waits).2.2⟩), ?_⟩
  rcases concerned with held | coming | absent
  · right
    have present : rig.base.line ≠ none := by
      change rig.course.runner.connection ≠ none
      rw [held]
      exact Option.some_ne_none line
    cases state : rig.course.state with
    | disconnected =>
      rw [state] at suits
      exact absurd suits.1 present
    | connecting =>
      rw [state] at suits
      exact absurd suits.1 present
    | connected => exact Or.inr (Or.inr ⟨held, Or.inr (Or.inr ⟨state, List.mem_cons_self⟩)⟩)
    | closing =>
      rw [state] at suits
      rcases suits with ⟨none, _⟩ | ⟨_, ⟨id, current, asked⟩, _⟩
      · exact absurd none present
      · rw [held] at current
        cases current
        exact Or.inl asked
    | closed => exact absurd state (Course.waits_iff.mp waits).2.1
  · exact Or.inr (Or.inr (Or.inl coming))
  · exact Or.inl absent

theorem Bound.play {rig : Rig κ σ} {line : ConnectionId} (bound : rig.Bound line)
    (leaves : rig.Leaves) (whole : rig.Whole) (later : List (Turn κ σ)) :
    (rig.play terms later).Whole ∧ (rig.play terms later).Leaves ∧
      (rig.play terms later).Bound line := by
  refine play_keeps terms (fun rig => rig.Whole ∧ rig.Leaves ∧ rig.Bound line) ?_ _ later
    ⟨whole, leaves, bound⟩
  rintro rig next ⟨whole, leaves, bound⟩
  exact ⟨whole.turn terms next, leaves.turn terms next,
    bound.turn terms leaves whole.graceful whole.sound whole.settled next⟩

omit [DecidableEq κ] in
theorem Bound.at_rest {rig : Rig κ σ} {line : ConnectionId} (bound : rig.Bound line)
    (leaves : rig.Leaves) (graceful : rig.Graceful) (idle : rig.course.work = .waiting)
    (opened : line ∈ rig.course.wires.opened) :
    rig.gear.closing = [line] ∨ line ∈ rig.course.unheard ∧ rig.course.state = .closing := by
  rcases bound.of_idle (by rw [idle]; rfl) (by rw [idle]; rfl) with absent | asked | coming
  · exact absurd opened absent
  · left
    obtain ⟨single, same⟩ := List.length_eq_one_iff.mp
      (Nat.le_antisymm graceful.single (List.length_pos_of_mem asked))
    rw [same, List.mem_singleton] at asked
    rw [same, asked]
  · right
    refine ⟨coming, (leaves.ends (by simp [idle])).resolve_right fun closed => ?_⟩
    -- An attempt that succeeded is not over for a session before that has learned of it.
    obtain ⟨report, queued, opens⟩ := List.mem_filterMap.mp coming
    have result : report.isResult = true := by
      cases report <;> first | rfl | cases opens
    have attempts : 0 < rig.course.wires.reports.countP TransportEvent.isResult :=
      List.countP_pos_iff.mpr ⟨report, queued, result⟩
    have idle := (graceful.finished closed).1
    unfold Course.dialing at idle
    omega

/-- A session that ends gets back to waiting by itself. -/
theorem Leaves.comes_to_rest {rig : Rig κ σ} (leaves : rig.Leaves) (settled : rig.course.Settled) :
    ∃ count, (rig.play terms (List.replicate count .proceed)).course.work = .waiting ∧
      (rig.play terms (List.replicate count .proceed)).course.wires.reports =
        rig.course.wires.reports ∧
      (rig.play terms (List.replicate count .proceed)).course.wires.opened =
        rig.course.wires.opened := by
  induction effort : rig.course.work.effort using Nat.strongRecOn generalizing rig with
  | ind bound ih =>
    by_cases idle : rig.course.work = .waiting
    · exact ⟨0, idle, rfl, rfl⟩
    · have less := Course.effort_advance terms (leaves.going settled) idle
      obtain ⟨count, rests, reports, opened⟩ :=
        ih _ (effort ▸ less) (leaves.turn terms .proceed) (settled.turn terms .proceed) rfl
      exact ⟨count + 1, rests, reports.trans (rig.course.advance_wires terms).1,
        opened.trans (rig.course.advance_wires terms).2.1⟩

private theorem takes_report {rig : Rig κ σ} (waits : rig.course.Waits)
    (some : rig.course.wires.reports ≠ []) :
    (rig.turn terms (.take .report)).course.wires.reports.length <
        rig.course.wires.reports.length ∧
      (rig.turn terms (.take .report)).course.wires.opened = rig.course.wires.opened := by
  have fewer := (rig.course.attend_wires terms .report).2.1
  have kept := (rig.course.attend_wires terms .report).2.2.1
  rw [← Course.turn_take_of_waits terms waits] at fewer kept
  refine ⟨?_, kept⟩
  have tail : (rig.turn terms (.take .report)).course.wires.reports =
      rig.course.wires.reports.tail := fewer
  have length := List.length_pos_iff.mpr some
  rw [tail, List.length_tail]
  omega

/-- A session that ends can ask every connection to close that it is bound to, with what has been
reported to it so far. -/
theorem Bound.comes_to_ask {rig : Rig κ σ} {line : ConnectionId} (bound : rig.Bound line)
    (leaves : rig.Leaves) (whole : rig.Whole) (opened : line ∈ rig.course.wires.opened) :
    ∃ own : List (Turn κ σ), (∀ turn ∈ own, turn = .proceed ∨ turn = .take .report) ∧
      (rig.play terms own).gear.closing = [line] := by
  induction left : rig.course.wires.reports.length using Nat.strongRecOn generalizing rig with
  | ind limit ih =>
    obtain ⟨count, idle, reports, same⟩ := leaves.comes_to_rest terms whole.settled
    have later := bound.play terms leaves whole (List.replicate count .proceed)
    have proceeds (turn : Turn κ σ) (member : turn ∈ List.replicate count .proceed) :
        turn = .proceed ∨ turn = .take .report := Or.inl (List.eq_of_mem_replicate member)
    generalize rests : rig.play terms (List.replicate count .proceed) = rested
      at idle reports same later
    obtain ⟨sane, ends, parts⟩ := later
    rw [← same] at opened
    rcases parts.at_rest ends sane.graceful idle opened with asked | ⟨coming, closing⟩
    · exact ⟨_, proceeds, rests ▸ asked⟩
    · have waits : rested.course.Waits := by
        refine Course.waits_iff.mpr ⟨idle, ?_, ends.going sane.settled⟩
        simp [closing]
      obtain ⟨report, queued, _⟩ := List.mem_filterMap.mp coming
      obtain ⟨less, kept⟩ := takes_report terms waits (List.ne_nil_of_mem queued)
      rw [reports, left] at less
      obtain ⟨own, mine, asked⟩ := ih _ less
        (parts.turn terms ends sane.graceful sane.sound sane.settled _)
        (ends.turn terms _) (sane.turn terms _) (kept ▸ opened) rfl
      refine ⟨List.replicate count .proceed ++ .take .report :: own, ?_, ?_⟩
      · intro turn member
        rcases List.mem_append.mp member with first | later
        · exact proceeds turn first
        · rcases List.mem_cons.mp later with rfl | last
          · exact Or.inr rfl
          · exact mine turn last
      · rw [Rig.play_append, rests]
        exact asked

end Rig

end Tether.Session
