import Tether.Proofs.Session.Hearing
import Tether.Proofs.Session.Lines

namespace Tether.Session

open Time (Instant Timestamp)
open Transport (ConnectionId)

variable {κ σ : Type}

namespace Course

variable (terms : Terms σ) [DecidableEq κ]

theorem play_take_eq (start : Course κ σ) (turns : List (Turn κ σ)) {earlier later : Nat}
    (before : earlier ≤ later) :
    start.play terms (turns.take later) =
      (start.play terms (turns.take earlier)).play terms ((turns.take later).drop earlier) := by
  have early : (turns.take later).take earlier = turns.take earlier := by
    rw [List.take_take, Nat.min_eq_left before]
  rw [← play_append, ← early, List.take_append_drop]

/-- Its reader noted a frame that arrived on the connection. -/
structure Noted (start : Course κ σ) (turns : List (Turn κ σ)) (line : ConnectionId)
    (frame : Bytes) (arrival : Nat) : Prop where
  arrives : turns[arrival]? = some (.arrive line frame)
  listens : line ∈ (start.play terms (turns.take arrival)).wires.readers

/-- The session took the report of a frame, of the connection that it had. -/
structure Took (start : Course κ σ) (turns : List (Turn κ σ)) (line : ConnectionId)
    (frame : Bytes) (taking : Nat) : Prop where
  takes : turns[taking]? = some (.take .report)
  waits : (start.play terms (turns.take taking)).Waits
  first : (start.play terms (turns.take taking)).wires.reports.head? = some (.message line frame)
  current : (start.play terms (turns.take taking)).runner.connection = some line

/-- What a session was told of or handles, with the turns in which it was noted and taken. -/
structure Traces (start : Course κ σ) (turns : List (Turn κ σ)) (count : Nat) : Prop where
  reports : ∀ line frame,
    .message line frame ∈ (start.play terms (turns.take count)).wires.reports →
      ∃ arrival < count, start.Noted terms turns line frame arrival
  minds : (start.play terms (turns.take count)).Minds fun held state frame =>
    ∃ line arrival taking, held = some line ∧ arrival < taking ∧ taking < count ∧
      start.Noted terms turns line frame arrival ∧ start.Took terms turns line frame taking ∧
      (start.play terms (turns.take taking)).state = state

theorem Traces.next {start : Course κ σ} {turns : List (Turn κ σ)} {count : Nat}
    (traces : start.Traces terms turns count)
    (sound : (start.play terms (turns.take count)).Sound) {next : Turn κ σ}
    (there : turns[count]? = some next) : start.Traces terms turns (count + 1) := by
  have played : start.play terms (turns.take (count + 1)) =
      (start.play terms (turns.take count)).turn terms next := by
    rw [List.take_add_one, there]
    exact start.play_concat terms _ next
  constructor
  · rw [played]
    intro line frame reported
    rcases message_mem_reports_turn terms reported with older | ⟨rfl, listens⟩
    · obtain ⟨arrival, before, noted⟩ := traces.reports line frame older
      exact ⟨arrival, Nat.lt_succ_of_lt before, noted⟩
    · exact ⟨count, Nat.lt_succ_self count, there, listens⟩
  · rw [played]
    refine traces.minds.turn terms sound next ?_ ?_
    · rintro held state frame ⟨line, arrival, taking, current, before, past, known⟩
      exact ⟨line, arrival, taking, current, before, Nat.lt_succ_of_lt past, known⟩
    · intro takes waits line frame reports first current
      obtain ⟨arrival, before, noted⟩ :=
        traces.reports line frame (by rw [first]; exact List.mem_cons_self)
      have took : start.Took terms turns line frame count :=
        ⟨there.trans (congrArg some takes), waits, by rw [first]; rfl, current⟩
      exact ⟨line, arrival, count, rfl, before, Nat.lt_succ_self count, noted, took, rfl⟩

theorem traces_play (now : Instant) (time : Timestamp) (rest : σ) (turns : List (Turn κ σ))
    {count : Nat} (bound : count ≤ turns.length) :
    (start terms now time rest).Traces terms turns count := by
  induction count with
  | zero =>
    refine ⟨?_, minds_start terms now time rest⟩
    intro line frame reported
    cases reported
  | succ count ih =>
    exact (ih (Nat.le_of_succ_le bound)).next terms (sound_play terms now time rest _)
      (List.getElem?_eq_getElem bound)

/-- A connection that is in use when a report of it is taken was in use when that came in. -/
theorem current_at_arrival (now : Instant) (time : Timestamp) (rest : σ) {turns : List (Turn κ σ)}
    {line : ConnectionId} {frame : Bytes} {arrival taking : Nat} (before : arrival < taking)
    (noted : (start terms now time rest).Noted terms turns line frame arrival)
    (took : (start terms now time rest).Took terms turns line frame taking) :
    ((start terms now time rest).play terms (turns.take arrival)).runner.connection =
      some line := by
  by_contra gone
  -- A reader has been started, so the session has learned of the connection and would not have it
  -- again once it was let go.
  have heard := heard_of_reader terms now time rest (turns.take arrival) line noted.listens
  have current := took.current
  rw [play_take_eq terms _ turns (Nat.le_of_lt before)] at current
  exact heard.gone_for_good terms gone _ current

/-- Whatever is reported of a connection that is not in use, the session takes the report and
nothing else changes. A connection that it had, and has not any more, it never has again. A frame
that it hands out was noted on the connection that it has, and had then, and its report was taken by
the session when that was connected, and it still is. -/
theorem only_the_connection_in_use_counts (now : Instant) (time : Timestamp) (rest : σ)
    (turns : List (Turn κ σ)) :
    let start : Course κ σ := .start terms now time rest
    let course := start.play terms turns
    (∀ report line, report.line? = some line → course.runner.connection ≠ some line →
      course.runner.step (terms.outside course.now course.time) (.transport report) =
          ⟨course.runner, []⟩ ∧
        ∀ reports, course.wires.reports = report :: reports → course.Waits →
          course.turn terms (.take .report) = course.withWires { course.wires with reports }) ∧
    (∀ count line, (start.play terms (turns.take count)).runner.connection = some line →
      course.runner.connection ≠ some line →
        ∀ later, (course.play terms later).runner.connection ≠ some line) ∧
    ∀ next frame, course.deed terms next = .dispatch frame →
      course.state = .connected ∧ ∃ line arrival taking, course.runner.connection = some line ∧
        arrival < taking ∧ taking < turns.length ∧
        start.Noted terms turns line frame arrival ∧
        (start.play terms (turns.take arrival)).runner.connection = some line ∧
        start.Took terms turns line frame taking ∧
        (start.play terms (turns.take taking)).state = .connected := by
  intro start course
  refine ⟨?_, ?_, ?_⟩
  · intro report line of other
    exact ⟨Runner.step_of_other _ of other,
      fun reports first waits => take_of_other terms waits first of other⟩
  · intro count line current gone later
    have heard := ((lined_play terms now time rest (turns.take count)).heard current).play terms
      (turns.drop count)
    rw [← play_append, List.take_append_drop] at heard
    exact heard.gone_for_good terms gone later
  · intro next frame dispatches
    obtain ⟨actions, events, _, _, work⟩ := deed_eq_dispatch terms dispatches
    have traces := traces_play (κ := κ) terms now time rest turns (Nat.le_refl turns.length)
    have minds := traces.minds
    rw [List.take_length] at minds
    obtain ⟨_, connected, line, arrival, taking, current, before, past, noted, took, state⟩ :=
      minds.actions frame (by rw [work]; exact List.mem_cons_self)
    exact ⟨connected, line, arrival, taking, current, before, past, noted,
      current_at_arrival terms now time rest before noted took, took, state.trans connected⟩

/-- Plain terms under which nothing can be sent at times. -/
def fragile : Terms Bool where
  settings := .standard
  signing := Terms.plain.signing
  port := ⟨fun _ _ broken => (if broken then some (.sendFailed "reset") else none, broken),
    fun _ _ _ broken => (none, broken)⟩

/-- The first connection fails under a request, and the session goes on with a second. Then a frame
comes in on the first and another on the second. -/
def replaced : List (Turn Nat Bool) :=
  [.proceed, .proceed, .proceed, .openLine ⟨1⟩, .take .report, .proceed, .proceed, .proceed,
    .submit .ping 7, .happen fun _ => true, .take .flush, .proceed, .proceed, .proceed, .proceed,
    .proceed, .happen fun _ => false, .tick ⟨10000000000⟩ ⟨10000⟩, .take .delay, .proceed,
    .proceed, .proceed, .openLine ⟨2⟩, .take .report, .proceed, .proceed, .proceed,
    .arrive ⟨1⟩ [0, 0, 9], .arrive ⟨2⟩ [0, 0, 1]]

/-- The session with two reports before it. -/
def offered : Course Nat Bool := (start fragile ⟨0⟩ ⟨0⟩ false).play fragile replaced

/-- The session when it has taken both. -/
def served : Course Nat Bool := offered.play fragile [.take .report, .take .report, .proceed]

/-- It takes the first report without noticing and never has that connection again. It hands out
what came in on the second. -/
theorem only_the_connection_in_use_counts_replaced :
    offered.turn fragile (.take .report) =
        offered.withWires { offered.wires with reports := [.message ⟨2⟩ [0, 0, 1]] } ∧
      (∀ later, (offered.play fragile later).runner.connection ≠ some ⟨1⟩) ∧
      served.deed fragile .proceed = .dispatch [0, 0, 1] ∧
      ∃ line, served.runner.connection = some line ∧ ∃ arrival,
        (start fragile ⟨0⟩ ⟨0⟩ false).Noted fragile
          (replaced ++ [.take .report, .take .report, .proceed]) line [0, 0, 1] arrival := by
  have first : offered.wires.reports = .message ⟨1⟩ [0, 0, 9] :: [.message ⟨2⟩ [0, 0, 1]] := rfl
  have waits : offered.Waits := ⟨rfl, rfl⟩
  have other : offered.runner.connection ≠ some ⟨1⟩ := by decide
  have had : ((start fragile ⟨0⟩ ⟨0⟩ false : Course Nat Bool).play fragile
      (replaced.take 9)).runner.connection = some ⟨1⟩ := rfl
  have hands : served.deed fragile .proceed = .dispatch [0, 0, 1] := rfl
  obtain ⟨passes, never, _⟩ := only_the_connection_in_use_counts fragile ⟨0⟩ ⟨0⟩ false replaced
  obtain ⟨_, _, comes⟩ := only_the_connection_in_use_counts fragile ⟨0⟩ ⟨0⟩ false
    (replaced ++ [.take .report, .take .report, .proceed])
  obtain ⟨_, line, arrival, _, current, _, _, noted, _⟩ := comes .proceed [0, 0, 1] hands
  exact ⟨(passes _ ⟨1⟩ rfl other).2 _ first waits, never 9 ⟨1⟩ had other, hands,
    line, current, arrival, noted⟩

end Course

end Tether.Session
