import Tether.Proofs.Session.Phase

namespace Tether.Session

open Time (Instant Timestamp)
open Transport (ConnectionId)

variable {κ σ : Type}

/-- A frame is handed out alone, only when it has arrived, and only while connected, which the
machine stays. -/
theorem Lifecycle.handle_dispatch {machine : Lifecycle} {event : Event} {frame : Bytes}
    (dispatches : .dispatch frame ∈ (machine.handle event).2) :
    machine.state = .connected ∧ event = .message frame ∧
      machine.handle event = (machine, [.dispatch frame]) := by
  obtain ⟨state, backoff, resend, failures⟩ := machine
  cases state with
  | connected =>
    cases event with
    | message other =>
      obtain rfl : frame = other := by simpa [handle] using dispatches
      exact ⟨rfl, rfl, rfl⟩
    | closed other =>
      simp only [handle] at dispatches
      split at dispatches
      · simp at dispatches
      · cases resend <;> simp [onLoss] at dispatches
    | failed reason => cases resend <;> simp [handle, onLoss] at dispatches
    | _ => simp [handle, closeForGood] at dispatches
  | _ => cases event <;> simp [handle, closeForGood] at dispatches

/-- The connection that a report of what arrived is of. -/
def TransportEvent.line? : TransportEvent → Option ConnectionId
  | .opened _ => none
  | .refused _ => none
  | .message line _ => some line
  | .closed line _ => some line
  | .failed line _ => some line

namespace Runner

variable {runner : Runner κ σ} {report : TransportEvent} {line : ConnectionId}

theorem receive_of_other (outside : Surroundings σ) (of : report.line? = some line)
    (other : runner.connection ≠ some line) : runner.receive outside report = (runner, none) := by
  have passed : runner.isCurrent line = false := by simpa [isCurrent] using other
  cases report <;> cases of <;> simp [receive, passed]

theorem step_of_other (outside : Surroundings σ) (of : report.line? = some line)
    (other : runner.connection ≠ some line) :
    runner.step outside (.transport report) = ⟨runner, []⟩ := by
  have passed : runner.isCurrent line = false := by simpa [isCurrent] using other
  cases report <;> cases of <;> simp [step, respond, onTransport, passed]

/-- A frame is heard when it arrived on the connection in use, which stays. -/
theorem receive_message (outside : Surroundings σ) {frame : Bytes}
    (hears : (runner.receive outside report).2 = some (.message frame)) :
    ∃ line, report = .message line frame ∧ runner.connection = some line ∧
      (runner.receive outside report).1.connection = some line := by
  cases report with
  | opened id => cases hears
  | refused reason => cases hears
  | message line other =>
    obtain ⟨current, same⟩ := Option.ite_none_right_eq_some.mp hears
    cases same
    have held : runner.connection = some line := by simpa [isCurrent] using current
    exact ⟨line, rfl, held, held⟩
  | closed id other =>
    obtain ⟨_, same⟩ := Option.ite_none_right_eq_some.mp hears
    cases same
  | failed id reason =>
    obtain ⟨_, same⟩ := Option.ite_none_right_eq_some.mp hears
    cases same

end Runner

namespace Course

/-- A session handles one frame at a time and hands it out while connected. Each is due to it, as
it is connected and as it stands. -/
structure Minds (course : Course κ σ) (due : Option ConnectionId → State → Bytes → Prop) :
    Prop where
  events : ∀ frame, .message frame ∈ course.work.events →
    course.work.actions = [] ∧ due course.runner.connection course.state frame
  actions : ∀ frame, .dispatch frame ∈ course.work.actions →
    course.work.actions = [.dispatch frame] ∧ course.state = .connected ∧
      due course.runner.connection course.state frame

variable {due later : Option ConnectionId → State → Bytes → Prop}

theorem Minds.stay {course next : Course κ σ} (minds : course.Minds due)
    (still : course.StandsStill next)
    (keeps : ∀ held state frame, due held state frame → later held state frame) :
    next.Minds later := by
  have state : next.state = course.state := congrArg Lifecycle.state still.lifecycle
  constructor
  · rw [still.work, still.connection, state]
    intro frame member
    exact (minds.events frame member).imp_right (keeps _ _ frame)
  · rw [still.work, still.connection, state]
    intro frame member
    obtain ⟨alone, connected, waiting⟩ := minds.actions frame member
    exact ⟨alone, connected, keeps _ _ frame waiting⟩

theorem minds_start (terms : Terms σ) (now : Instant) (time : Timestamp) (rest : σ) :
    (start terms now time rest : Course κ σ).Minds due := by
  constructor
  · intro frame member
    cases List.mem_singleton.mp member
  · intro frame member
    cases member

variable (terms : Terms σ)

/-- A session turns to a frame only when it takes the report of it, which is of the connection in
use, and keeps that connection. -/
theorem attend_hears {course : Course κ σ} (idle : course.work = .waiting) (choice : Choice)
    {frame : Bytes} (turned : .message frame ∈ (course.attend terms choice).work.events) :
    choice = .report ∧ ∃ line reports,
      course.wires.reports = .message line frame :: reports ∧
        course.runner.connection = some line ∧
        (course.attend terms choice).runner.connection = some line := by
  have none : .message frame ∉ course.work.events := by
    rw [idle]
    exact List.not_mem_nil
  cases choice with
  | flush =>
    simp only [attend, Work.events_on, Option.mem_toList] at turned
    rcases Runner.flush_cases terms course.now course.time course.runner with
      ⟨same, _⟩ | ⟨line, count, rest, failure, _, _, _, flushed, _⟩
    · rw [same] at turned
      cases turned
    · rw [flushed] at turned
      cases failure <;> cases turned
  | disconnect => cases List.mem_singleton.mp turned
  | delay =>
    simp only [attend] at turned
    split at turned
    · cases List.mem_singleton.mp turned
    · exact absurd turned none
  | sweep => exact absurd turned none
  | report =>
    simp only [attend] at turned ⊢
    cases queued : course.wires.reports with
    | nil =>
      rw [queued] at turned
      exact absurd turned none
    | cons report reports =>
      simp only [queued, Work.events_on, Option.mem_toList] at turned
      obtain ⟨line, rfl, current, held⟩ := Runner.receive_message _ turned
      exact ⟨trivial, line, reports, rfl, current, held⟩

variable [DecidableEq κ]

theorem take_of_other {course : Course κ σ} (waits : course.Waits) {report : TransportEvent}
    {reports : List TransportEvent} (first : course.wires.reports = report :: reports)
    {line : ConnectionId} (of : report.line? = some line)
    (other : course.runner.connection ≠ some line) :
    course.turn terms (.take .report) = course.withWires { course.wires with reports } := by
  obtain ⟨idle, lives⟩ := waits
  have attends : course.turn terms (.take .report) = course.attend terms .report := by
    simp [turn, idle, lives]
  have passed : (course.withWires { course.wires with reports }).runner.receive
      (terms.outside course.now course.time) report =
        ((course.withWires { course.wires with reports }).runner, none) :=
    Runner.receive_of_other _ of other
  rw [attends, attend, first]
  simp only [withWires] at passed ⊢
  rw [passed]
  simp [Work.on, idle]

omit [DecidableEq κ] in
private theorem mem_reports_endAttempt (course : Course κ σ) (opened : List ConnectionId)
    {report other : TransportEvent}
    (member : other ∈ (course.endAttempt opened report).wires.reports) :
    other ∈ course.wires.reports ∨ report = other := by
  rcases course.endAttempt_cases opened report with same | ⟨_, ends⟩
  · exact Or.inl (same ▸ member)
  · rw [ends] at member
    exact (List.mem_append.mp member).imp_right fun new => (List.mem_singleton.mp new).symm

omit [DecidableEq κ] in
private theorem mem_reports_read (course : Course κ σ) (id : ConnectionId) (last : Bool)
    {report other : TransportEvent} (member : other ∈ (course.read id last report).wires.reports) :
    other ∈ course.wires.reports ∨ report = other ∧ id ∈ course.wires.readers := by
  by_cases listens : id ∈ course.wires.readers
  · rw [show course.read id last report = _ from if_pos listens] at member
    exact (List.mem_append.mp member).imp_right
      fun new => ⟨(List.mem_singleton.mp new).symm, listens⟩
  · rw [show course.read id last report = course from if_neg listens] at member
    exact Or.inl member

theorem message_mem_reports_turn {course : Course κ σ} {next : Turn κ σ} {line : ConnectionId}
    {frame : Bytes} (reported : .message line frame ∈ (course.turn terms next).wires.reports) :
    .message line frame ∈ course.wires.reports ∨
      next = .arrive line frame ∧ line ∈ course.wires.readers := by
  cases next with
  | submit message caller => exact Or.inl reported
  | notify message =>
    simp only [Course.turn] at reported
    split at reported <;> exact Or.inl reported
  | abandon caller => exact Or.inl reported
  | tick now time => exact Or.inl reported
  | happen change => exact Or.inl reported
  | openLine id =>
    simp only [Course.turn] at reported
    split at reported
    · exact Or.inl reported
    · exact (course.mem_reports_endAttempt [id] reported).imp_right (by simp)
  | refuse reason => exact (course.mem_reports_endAttempt [] reported).imp_right (by simp)
  | arrive id other =>
    rcases course.mem_reports_read id false reported with older | ⟨same, listens⟩
    · exact Or.inl older
    · cases same
      exact Or.inr ⟨rfl, listens⟩
  | hangUp id other => exact (course.mem_reports_read id true reported).imp_right (by simp)
  | breakLine id reason => exact (course.mem_reports_read id true reported).imp_right (by simp)
  | take choice =>
    left
    rcases course.turn_take_cases terms choice with same | ⟨_, attends⟩
    · exact same ▸ reported
    · rw [attends, (course.attend_wires terms choice).2.1] at reported
      split at reported
      · exact List.mem_of_mem_tail reported
      · exact reported
  | proceed =>
    left
    change _ ∈ (course.advance terms).wires.reports at reported
    rwa [(course.advance_wires terms).1] at reported

/-- A frame becomes due to a session when it takes the report of it, and nothing else needs to be
known of what is due. -/
theorem Minds.turn {course : Course κ σ} (minds : course.Minds due) (sound : course.Sound)
    (next : Turn κ σ) (keeps : ∀ held state frame, due held state frame → later held state frame)
    (takes : next = .take .report → course.Waits → ∀ line frame reports,
      course.wires.reports = .message line frame :: reports →
        course.runner.connection = some line → later (some line) course.state frame) :
    (course.turn terms next).Minds later := by
  rcases course.turn_cases terms next with
    still | ⟨choice, rfl, waits, attends⟩ | ⟨rfl, advances⟩
  · exact minds.stay still keeps
  · obtain ⟨lifecycle, none, _⟩ := attend_leaves terms waits.1 choice
    have state : (course.attend terms choice).state = course.state :=
      congrArg Lifecycle.state lifecycle
    rw [attends]
    refine ⟨?_, ?_⟩
    · intro frame member
      obtain ⟨rfl, line, reports, first, current, held⟩ :=
        attend_hears terms waits.1 choice member
      rw [held, state]
      exact ⟨none, takes rfl waits line frame reports first current⟩
    · simp [none]
  · rcases course.advance_cases terms with
      same | ⟨action, actions, events, work, _, acts⟩ | ⟨event, events, work, handles⟩ |
        ⟨_, _, publishes⟩
    · rw [advances, same]
      exact minds.stay ⟨rfl, rfl, rfl, rfl⟩ keeps
    · rw [advances, acts]
      refine ⟨?_, ?_⟩
      · intro frame member
        rcases List.mem_append.mp member with older | new
        · have done := (minds.events frame (by rw [work]; exact older)).1
          rw [work] at done
          cases done
        · -- What an action brings about is a failure or a close.
          obtain ⟨_, ⟨_, other⟩ | ⟨_, other⟩, _⟩ := Runner.perform_followUp
            (terms.outside course.now course.time) course.runner action _ (Option.mem_toList.mp new)
          · cases other
          · cases other
      · intro frame member
        have alone := (minds.actions frame (by rw [work]; exact List.mem_cons_of_mem _ member)).1
        rw [work] at alone
        obtain ⟨_, rfl⟩ := List.cons.inj alone
        cases member
    · -- The event is the only one, so no other frame waits behind it.
      obtain rfl := sound.alone work
      rw [advances, handles]
      refine ⟨by simp [Work.events], ?_⟩
      intro frame member
      obtain ⟨connected, rfl, same⟩ := Lifecycle.handle_dispatch member
      have waiting := (minds.events frame (by rw [work]; exact List.mem_cons_self)).2
      refine ⟨congrArg Prod.snd same, ?_, ?_⟩
      · simp only [state, same]
        exact connected
      · simp only [state, same]
        exact keeps _ _ frame waiting
    · rw [advances, publishes]
      constructor <;> simp [Work.events, Work.actions]

end Course

end Tether.Session
