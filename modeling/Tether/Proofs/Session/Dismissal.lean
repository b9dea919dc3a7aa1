import Tether.Proofs.Session.Lines
import Tether.Proofs.Session.Memory
import Tether.Proofs.Session.Progress
import Tether.Proofs.Session.Readiness

namespace Tether.Session

open Time (Instant Timestamp)
open Transport (ConnectionId)

variable {κ σ : Type}

/-- Whether an action asks the connection to close. -/
def Action.asks : Action → Bool
  | .closeTransport _ _ => true
  | _ => false

namespace Lifecycle

/-- A connection is asked to close in the same words always. -/
theorem handle_closes (machine : Lifecycle) (event : Event) {code : UInt16} {reason : String}
    (closes : .closeTransport code reason ∈ (machine.handle event).2) :
    .closeTransport code reason = closeForGood := by
  have lost : .closeTransport code reason ∉ machine.onLoss := by
    unfold onLoss
    cases machine.resend <;> simp
  unfold handle at closes
  split at closes
  case h_9 =>
    split at closes
    · simp at closes
    · exact absurd closes lost
  case h_10 => exact absurd closes lost
  all_goals simp_all [closeForGood]

theorem handle_ends (machine : Lifecycle) (event : Event)
    (ends : machine.state = .closing ∨ machine.state = .closed) :
    (machine.handle event).1.state = .closing ∨ (machine.handle event).1.state = .closed := by
  obtain ⟨state, backoff, resend, failures⟩ := machine
  rcases ends with rfl | rfl
  · cases event <;> simp [handle]
  · cases event <;> simp [handle]

theorem handle_disconnect (machine : Lifecycle) :
    (machine.handle .disconnect).1.state = .closing ∨
      (machine.handle .disconnect).1.state = .closed := by
  obtain ⟨state, backoff, resend, failures⟩ := machine
  cases state <;> simp [handle]

theorem closeForGood_mem_handle (machine : Lifecycle) (event : Event)
    (ends : machine.state = .closing ∧ event = .opened ∨
      machine.state = .connected ∧ event = .disconnect) :
    closeForGood ∈ (machine.handle event).2 := by
  obtain ⟨state, backoff, resend, failures⟩ := machine
  rcases ends with ⟨rfl, rfl⟩ | ⟨rfl, rfl⟩ <;> simp [handle]

/-- A session that ends has at most one connection that it has asked to close or may still ask. -/
theorem handle_once (machine : Lifecycle) (event : Event) {held : Option ConnectionId}
    {asked dialing : Nat} (expects : machine.state.Expects held dialing event)
    (unasked : ¬(machine.state = .closing ∨ machine.state = .closed) → asked = 0)
    (once : machine.state = .closing ∨ machine.state = .closed →
      asked + [event].count .opened + dialing ≤ 1)
    (ends : (machine.handle event).1.state = .closing ∨ (machine.handle event).1.state = .closed) :
    asked + (machine.handle event).2.countP Action.asks +
      ((machine.handle event).2.count .openTransport + dialing) ≤ 1 := by
  obtain ⟨state, backoff, resend, failures⟩ := machine
  cases state with
  | disconnected => cases event <;> simp_all [handle, State.Expects, State.Rests, Action.asks]
  | connecting =>
    cases event <;> simp_all [handle, State.Expects, State.Rests, Action.asks, failing]
  | connected =>
    cases event with
    | closed frame =>
      simp only [handle] at ends ⊢
      split
      · simp_all [State.Expects, State.Rests, Action.asks]
      · rename_i abnormal
        simp [abnormal, failing] at ends
    | _ =>
      simp_all [handle, State.Expects, State.Rests, List.countP_cons, Action.asks, failing,
        closeForGood]
  | closing =>
    have bound := once (Or.inl rfl)
    cases event <;> simp_all [handle, Action.asks, closeForGood]
  | closed =>
    have bound := once (Or.inr rfl)
    cases event <;> simp_all [handle]
    all_goals omega

theorem handle_over (machine : Lifecycle) (event : Event) {held : Option ConnectionId}
    {dialing : Nat} (expects : machine.state.Expects held dialing event)
    (lost : machine.state = .closing → event.isLoss = true → dialing = 0)
    (finished : machine.state = .closed → dialing = 0)
    (closed : (machine.handle event).1.state = .closed) :
    (machine.handle event).2.count .openTransport + dialing = 0 := by
  obtain ⟨state, backoff, resend, failures⟩ := machine
  cases state with
  | disconnected => cases event <;> simp_all [handle, State.Expects, State.Rests]
  | connecting => cases event <;> simp_all [handle, failing]
  | connected =>
    cases event with
    | closed frame =>
      simp only [handle] at closed ⊢
      split
      · simp_all [State.Expects, State.Rests]
      · rename_i abnormal
        simp [abnormal, failing] at closed
    | _ => simp_all [handle, failing]
  | closing => cases event <;> simp_all [handle, Event.isLoss]
  | closed => cases event <;> simp_all [handle]

end Lifecycle

namespace Gear

@[simp] theorem closing_letGo (gear : Gear) (held : Option ConnectionId) :
    (gear.letGo held).closing = gear.closing := by
  cases held <;> rfl

@[simp] theorem closing_hear (gear : Gear) (held : Option ConnectionId) (report : TransportEvent) :
    (gear.hear held report).closing = gear.closing := by
  cases report with
  | opened id => exact gear.closing_letGo held
  | _ => rfl

theorem closing_after (gear : Gear) (held : Option ConnectionId) (action : Action) :
    (gear.after held action).closing =
      (if action.asks then held.toList else []) ++ gear.closing := by
  cases action with
  | closeTransport code reason => cases held <;> rfl
  | dropTransport => exact gear.closing_letGo held
  | _ => rfl

end Gear

namespace Course

/-- What a waiting session has turned to. -/
inductive TurnsTo (course next : Course κ σ) : Prop where
  /-- The connection that an attempt brought. -/
  | opening (id : ConnectionId)
      (taken : course.wires.reports = .opened id :: next.wires.reports)
      (connection : next.runner.connection = some id) (turned : next.work.events = [.opened])
  /-- The failure of an attempt. -/
  | refusal (reason : String)
      (taken : course.wires.reports = .refused reason :: next.wires.reports)
      (connection : next.runner.connection = course.runner.connection)
      (turned : next.work.events = [.failed reason])
  /-- Something else. Only a session that has a connection can lose it. -/
  | other (unheard : next.unheard = course.unheard)
      (results : next.wires.reports.countP TransportEvent.isResult =
        course.wires.reports.countP TransportEvent.isResult)
      (connection : next.runner.connection = course.runner.connection)
      (turned : .opened ∉ next.work.events)
      (lost : ∀ event ∈ next.work.events, event.isLoss = true →
        course.state = .connected ∨ course.runner.connection ≠ none)

private theorem turnsTo_report {course next : Course κ σ} {report : TransportEvent}
    {reports : List TransportEvent} (id : ConnectionId) (event : Event)
    (queued : course.wires.reports = report :: reports) (noResult : report.isResult = false)
    (noOpening : report.opening? = none) (loss : .opened ≠ event)
    (connection : next.runner.connection = course.runner.connection)
    (taken : next.wires.reports = reports)
    (work : next.work = .on (if course.runner.isCurrent id then some event else none)) :
    course.TurnsTo next := by
  have events (turned : Event) (member : turned ∈ next.work.events) :
      turned = event ∧ course.runner.connection = some id := by
    rw [work] at member
    by_cases current : course.runner.isCurrent id
    · rw [if_pos current] at member
      exact ⟨List.mem_singleton.mp member, by simpa [Runner.isCurrent] using current⟩
    · rw [if_neg current] at member
      cases member
  refine .other ?_ ?_ connection (fun member => loss (events _ member).1) ?_
  · simp [unheard, queued, taken, noOpening]
  · simp [queued, taken, noResult]
  · intro turned member _
    right
    rw [(events turned member).2]
    exact Option.some_ne_none id

variable (terms : Terms σ)

theorem attend_turnsTo {course : Course κ σ} (idle : course.work = .waiting) (choice : Choice) :
    course.TurnsTo (course.attend terms choice) := by
  have none : course.work.events = [] := by rw [idle]; rfl
  have still {next : Course κ σ} (work : next.work.events = course.work.events)
      (connection : next.runner.connection = course.runner.connection)
      (reports : next.wires.reports = course.wires.reports) : course.TurnsTo next := by
    refine .other ?_ ?_ connection ?_ ?_
    · rw [unheard, unheard, reports]
    · rw [reports]
    · simp [work, none]
    · simp [work, none]
  cases choice with
  | flush =>
    simp only [attend]
    rcases Runner.flush_cases terms course.now course.time course.runner with
      ⟨same, _⟩ | ⟨line, count, rest, failure, connected, _, _, flushed, _⟩
    · rw [same]
      exact still none.symm rfl rfl
    · rw [flushed]
      refine .other rfl rfl rfl ?_ fun _ _ _ => Or.inl connected
      cases failure <;> simp [Work.on, Work.events]
  | disconnect =>
    refine .other rfl rfl rfl (by simp [attend, Work.on, Work.events]) ?_
    intro event member loss
    rw [List.mem_singleton.mp member] at loss
    cases loss
  | delay =>
    simp only [attend]
    split
    · refine .other rfl rfl rfl (by simp [Work.on, Work.events]) ?_
      intro event member loss
      rw [List.mem_singleton.mp member] at loss
      cases loss
    · exact still rfl rfl rfl
  | sweep => exact still rfl rfl rfl
  | report =>
    simp only [attend]
    cases queued : course.wires.reports with
    | nil => exact still rfl rfl rfl
    | cons report reports =>
      cases report with
      | opened id =>
        simp only [Runner.receive_opened]
        exact .opening id queued rfl rfl
      | refused reason => exact .refusal reason queued rfl rfl
      | message id frame =>
        exact turnsTo_report id (.message frame) queued rfl rfl (by simp) rfl rfl rfl
      | closed id frame =>
        exact turnsTo_report id (.closed frame) queued rfl rfl (by simp) rfl rfl rfl
      | failed id reason =>
        exact turnsTo_report id (.failed reason) queued rfl rfl (by simp) rfl rfl rfl

private theorem Sound.closing_of_asks {course : Course κ σ} (sound : course.Sound) {action : Action}
    {actions : List Action} {events : List Event}
    (work : course.work = .busy (action :: actions) events) (asks : action.asks = true) :
    course.state = .closing := by
  cases action with
  | closeTransport code reason =>
    exact sound.closes code reason (by rw [work]; exact List.mem_cons_self)
  | _ => cases asks

theorem dialing_of_waiting {course : Course κ σ} (idle : course.work = .waiting) :
    course.dialing =
      course.wires.attempts + course.wires.reports.countP TransportEvent.isResult := by
  simp [dialing, idle, Work.actions]

namespace TurnsTo

variable {course next : Course κ σ} (turned : course.TurnsTo next) (idle : course.work = .waiting)
  (actions : next.work.actions = []) (attempts : next.wires.attempts = course.wires.attempts)

include idle actions attempts

private theorem dialing_of_taken {report : TransportEvent} (result : report.isResult = true)
    (taken : course.wires.reports = report :: next.wires.reports) :
    course.dialing = next.dialing + 1 := by
  rw [dialing_of_waiting idle, taken, List.countP_cons_of_pos result, ← Nat.add_assoc]
  simp [dialing, actions, attempts]

private theorem dialing_of_results
    (results : next.wires.reports.countP TransportEvent.isResult =
      course.wires.reports.countP TransportEvent.isResult) : next.dialing = course.dialing := by
  rw [dialing_of_waiting idle, ← results]
  simp [dialing, actions, attempts]

include turned

/-- A connection that the session turns to was the result of an attempt. -/
theorem count_opened_le : next.work.events.count .opened + next.dialing ≤ course.dialing := by
  cases turned with
  | opening id taken _ events =>
    rw [dialing_of_taken idle actions attempts rfl taken, events, List.count_singleton_self,
      Nat.add_comm]
  | refusal reason taken _ events =>
    rw [dialing_of_taken idle actions attempts rfl taken, events]
    simp only [List.count_cons, List.count_nil, beq_iff_eq, reduceCtorEq, ↓reduceIte]
    omega
  | other _ results _ none _ =>
    rw [List.count_eq_zero.mpr none, dialing_of_results idle actions attempts results, Nat.zero_add]

/-- A loss that the session turns to is that of an attempt or of the connection that it has. -/
theorem dialing_of_loss {event : Event} (member : event ∈ next.work.events)
    (loss : event.isLoss = true) :
    course.dialing = next.dialing + 1 ∨
      next.dialing = course.dialing ∧
        (course.state = .connected ∨ course.runner.connection ≠ none) := by
  cases turned with
  | opening id _ _ events =>
    rw [events, List.mem_singleton] at member
    rw [member] at loss
    cases loss
  | refusal reason taken _ _ => exact Or.inl (dialing_of_taken idle actions attempts rfl taken)
  | other _ results _ _ lost =>
    exact Or.inr ⟨dialing_of_results idle actions attempts results, lost event member loss⟩

end TurnsTo

end Course

namespace Rig

/-- What a turn does to what a session has and is at. -/
inductive TurnsTo (rig next : Rig κ σ) : Prop where
  /-- The session is passed by. A connection that opens is one that it will learn of. -/
  | passing (work : next.course.work = rig.course.work)
      (state : next.course.state = rig.course.state)
      (stranded : next.course.runner.stranded = rig.course.runner.stranded)
      (connection : next.course.runner.connection = rig.course.runner.connection)
      (dialing : next.course.dialing = rig.course.dialing)
      (unheard : ∀ line ∈ rig.course.unheard, line ∈ next.course.unheard)
      (opened : ∀ line ∈ next.course.wires.opened,
        line ∈ rig.course.wires.opened ∨ line ∈ next.course.unheard)
      (closing : next.gear.closing = rig.gear.closing)
  /-- The session waits, and turns to something. -/
  | attending (waits : rig.course.Waits) (actions : next.course.work.actions = [])
      (state : next.course.state = rig.course.state)
      (turned : rig.course.TurnsTo next.course)
      (attempts : next.course.wires.attempts = rig.course.wires.attempts)
      (opened : next.course.wires.opened = rig.course.wires.opened)
      (closing : next.gear.closing = rig.gear.closing)
  /-- The session carries out an action, which may bring about an event. -/
  | acting {action : Action} {actions : List Action} {events : List Event} {brought : Option Event}
      (work : rig.course.work = .busy (action :: actions) events)
      (left : next.course.work = .busy actions (events ++ brought.toList))
      (state : next.course.state = rig.course.state)
      (connection : next.course.runner.connection =
        if action = .dropTransport then none else rig.course.runner.connection)
      (dialing : next.course.dialing = rig.course.dialing)
      (unheard : next.course.unheard = rig.course.unheard)
      (opened : next.course.wires.opened = rig.course.wires.opened)
      (closing : next.gear.closing =
        (if action.asks then rig.course.runner.connection.toList else []) ++ rig.gear.closing)
      (brings : ∀ event ∈ brought, event.isLoss = true ∧
        (action.asks = true ∨ rig.course.state = .connected))
  /-- The session handles an event. -/
  | handling {event : Event} {events : List Event}
      (work : rig.course.work = .busy [] (event :: events))
      (left : next.course.work = .busy (rig.course.runner.lifecycle.handle event).2 events)
      (state : next.course.state = (rig.course.runner.lifecycle.handle event).1.state)
      (connection : next.course.runner.connection = rig.course.runner.connection)
      (wires : next.course.wires = rig.course.wires)
      (closing : next.gear.closing = rig.gear.closing)
  /-- The session goes back to wait. -/
  | resting (work : rig.course.work = .busy [] []) (left : next.course.work = .waiting)
      (state : next.course.state = rig.course.state)
      (connection : next.course.runner.connection = rig.course.runner.connection)
      (wires : next.course.wires = rig.course.wires)
      (closing : next.gear.closing = rig.gear.closing)

private theorem TurnsTo.refl (rig : Rig κ σ) : rig.TurnsTo rig :=
  .passing rfl rfl rfl rfl rfl (fun _ member => member) (fun _ => Or.inl) rfl

variable (terms : Terms σ)

private theorem turnsTo_acting (rig : Rig κ σ) {action : Action} {actions : List Action}
    {events : List Event} (work : rig.course.work = .busy (action :: actions) events) :
    let effect :=
      rig.course.runner.perform (terms.outside rig.course.now rig.course.time) action
    rig.TurnsTo ⟨{ rig.course with
        runner := effect.runner
        work := .busy actions (events ++ effect.followUp.toList)
        news := rig.course.news ++ effect.news },
      rig.gear.after rig.course.runner.connection action⟩ := by
  intro effect
  obtain ⟨lifecycle, connection, attempts, reports, opened, _⟩ :=
    Runner.perform_leaves terms rig.course.now rig.course.time rig.course.runner action
  refine .acting work rfl (congrArg Lifecycle.state lifecycle) connection ?_
    (congrArg (List.filterMap TransportEvent.opening?) reports) opened
    (rig.gear.closing_after _ action) ?_
  · simp only [Course.dialing, Course.wires, work, Work.actions, effect, attempts, reports,
      List.count_cons, List.count_nil]
    omega
  · intro event member
    obtain ⟨provokes, loss, connected⟩ := Runner.perform_followUp
      (terms.outside rig.course.now rig.course.time) rig.course.runner action event member
    refine ⟨Event.isLoss_iff.mpr loss, ?_⟩
    cases action with
    | flushQueue => exact Or.inr (connected rfl)
    | closeTransport code reason => exact Or.inl rfl
    | _ => cases provokes

private theorem turnsTo_advance (rig : Rig κ σ) :
    rig.TurnsTo ⟨rig.course.advance terms, rig.course.gearAfter terms rig.gear .proceed⟩ := by
  unfold Course.advance
  by_cases broken : rig.course.runner.stranded
  · rw [if_pos broken, Course.gearAfter_proceed terms rig.gear (by simp [broken])]
    exact .refl rig
  · have going : rig.course.runner.stranded = false := Bool.eq_false_iff.mpr broken
    rw [if_neg broken]
    cases work : rig.course.work with
    | waiting =>
      rw [Course.gearAfter_proceed terms rig.gear (by simp [work, Work.actions])]
      exact .refl rig
    | busy actions events =>
      cases actions with
      | cons action actions =>
        rw [Course.gearAfter_action terms rig.gear work going]
        exact rig.turnsTo_acting terms work
      | nil =>
        rw [Course.gearAfter_proceed terms rig.gear (by simp [work, Work.actions])]
        cases events with
        | cons event events => exact .handling work rfl rfl rfl rfl rfl
        | nil =>
          obtain ⟨published, shown⟩ := rig.course.runner.publish_runner
          simp only [shown]
          exact .resting work rfl rfl rfl rfl rfl

variable [DecidableEq κ]

theorem closing_take (rig : Rig κ σ) (choice : Choice) :
    (rig.turn terms (.take choice)).gear.closing = rig.gear.closing := by
  change (rig.course.gearAfter terms rig.gear (.take choice)).closing = _
  by_cases takes : rig.course.Waits ∧ choice = .report
  · obtain ⟨waits, rfl⟩ := takes
    cases queued : rig.course.wires.reports with
    | nil => rw [Course.gearAfter_take terms rig.gear _ fun _ _ => queued]
    | cons report reports =>
      rw [Course.gearAfter_report terms rig.gear waits queued, Gear.closing_hear]
  · rw [Course.gearAfter_take terms rig.gear _ fun waits also => absurd ⟨waits, also⟩ takes]

private theorem turnsTo_take (rig : Rig κ σ) (choice : Choice) :
    rig.TurnsTo (rig.turn terms (.take choice)) := by
  by_cases waits : rig.course.Waits
  · have attends : rig.course.turn terms (.take choice) = rig.course.attend terms choice :=
      Course.turn_take_of_waits terms waits
    obtain ⟨lifecycle, actions, _⟩ := Course.attend_leaves terms waits.1 choice
    have attempts := (rig.course.attend_wires terms choice).1
    have opened := (rig.course.attend_wires terms choice).2.2.1
    have turned := Course.attend_turnsTo terms waits.1 choice
    rw [← attends] at lifecycle actions attempts opened turned
    exact .attending waits actions (congrArg Lifecycle.state lifecycle) turned attempts opened
      (rig.closing_take terms choice)
  · have same : rig.turn terms (.take choice) = rig := by
      unfold turn
      rw [Course.turn_take_of_not_waits terms waits,
        Course.gearAfter_take terms rig.gear choice fun also => absurd also waits]
    rw [same]
    exact .refl rig

omit [DecidableEq κ] in
/-- The result of an attempt takes the attempt's place, and the session will learn of a connection
that it brings. -/
private theorem turnsTo_endAttempt (rig : Rig κ σ) (opened : List ConnectionId)
    {report : TransportEvent} (result : report.isResult)
    (learns : ∀ line ∈ opened, report.opening? = some line) :
    rig.TurnsTo ⟨rig.course.endAttempt opened report, rig.gear⟩ := by
  rcases rig.course.endAttempt_cases opened report with same | ⟨some, ends⟩
  · rw [same]
    exact .refl rig
  · rw [ends]
    refine .passing rfl rfl rfl rfl ?_ ?_ ?_ rfl
    · simp only [Course.dialing, Course.wires, Course.withWires, List.countP_append,
        List.countP_singleton, result, ↓reduceIte] at some ⊢
      omega
    · intro line member
      simp only [Course.unheard, Course.wires, Course.withWires, List.filterMap_append]
      exact List.mem_append_left _ member
    · intro line member
      rcases List.mem_append.mp member with new | before
      · right
        simp [Course.unheard, Course.wires, Course.withWires, learns line new]
      · exact Or.inl before

omit [DecidableEq κ] in
private theorem turnsTo_read (rig : Rig κ σ) (id : ConnectionId) (last : Bool)
    {report : TransportEvent} (noResult : report.isResult = false) :
    rig.TurnsTo ⟨rig.course.read id last report, rig.gear⟩ := by
  rcases rig.course.read_cases id last report with same | ⟨readers, reads⟩
  · rw [same]
    exact .refl rig
  · rw [reads]
    refine .passing rfl rfl rfl rfl ?_ ?_ (fun _ => Or.inl) rfl
    · simp [Course.dialing, Course.wires, Course.withWires, List.countP_append, noResult]
    · intro line member
      simp only [Course.unheard, Course.wires, Course.withWires, List.filterMap_append]
      exact List.mem_append_left _ member

omit [DecidableEq κ] in
private theorem turnsTo_beside {rig : Rig κ σ} {course : Course κ σ}
    (work : course.work = rig.course.work) (state : course.state = rig.course.state)
    (stranded : course.runner.stranded = rig.course.runner.stranded)
    (connection : course.runner.connection = rig.course.runner.connection)
    (attempts : course.wires.attempts = rig.course.wires.attempts)
    (reports : course.wires.reports = rig.course.wires.reports)
    (opened : course.wires.opened = rig.course.wires.opened) :
    rig.TurnsTo ⟨course, rig.gear⟩ := by
  refine .passing work state stranded connection ?_ ?_ ?_ rfl
  · simp only [Course.dialing, work, attempts, reports]
  · simp only [Course.unheard, reports]
    exact fun _ member => member
  · simp only [opened]
    exact fun _ => Or.inl

/-- Whatever a turn does, it is one of these. -/
theorem turnsTo_turn (rig : Rig κ σ) (next : Turn κ σ) : rig.TurnsTo (rig.turn terms next) := by
  cases next with
  | submit message caller => exact turnsTo_beside rfl rfl rfl rfl rfl rfl rfl
  | notify message =>
    simp only [turn, Course.turn]
    split
    · exact turnsTo_beside rfl rfl rfl rfl rfl rfl rfl
    · exact .refl rig
  | abandon caller => exact turnsTo_beside rfl rfl rfl rfl rfl rfl rfl
  | tick now time => exact turnsTo_beside rfl rfl rfl rfl rfl rfl rfl
  | happen change => exact turnsTo_beside rfl rfl rfl rfl rfl rfl rfl
  | openLine id =>
    simp only [turn, Course.turn]
    split
    · exact .refl rig
    · exact rig.turnsTo_endAttempt [id] rfl (by simp [TransportEvent.opening?])
  | refuse reason => exact rig.turnsTo_endAttempt [] rfl (by simp)
  | arrive id frame => exact rig.turnsTo_read id false rfl
  | hangUp id frame => exact rig.turnsTo_read id true rfl
  | breakLine id reason => exact rig.turnsTo_read id true rfl
  | take choice => exact rig.turnsTo_take terms choice
  | proceed => exact rig.turnsTo_advance terms

/-- A session asks no connection to close before it ends, and then in the usual words and only one:
what it has asked, is to ask or may still get for an attempt is one connection at most. -/
structure Graceful (rig : Rig κ σ) : Prop where
  wording : ∀ code reason, .closeTransport code reason ∈ rig.course.work.actions →
    .closeTransport code reason = Lifecycle.closeForGood
  unasked : ¬(rig.course.state = .closing ∨ rig.course.state = .closed) → rig.gear.closing = []
  once : rig.course.state = .closing ∨ rig.course.state = .closed →
    rig.gear.closing.length + rig.course.work.actions.countP Action.asks +
      rig.course.work.events.count .opened + rig.course.dialing ≤ 1
  /-- What a session that ends loses is its last connection or attempt. -/
  lost : rig.course.state = .closing →
    ∀ event ∈ rig.course.work.events, event.isLoss = true → rig.course.dialing = 0
  finished : rig.course.state = .closed → rig.course.dialing = 0 ∧ rig.course.work.events = []

omit [DecidableEq κ] in
theorem graceful_start (now : Instant) (time : Timestamp) (rest : σ) :
    (start terms now time rest : Rig κ σ).Graceful where
  wording _ _ member := nomatch member
  unasked _ := rfl
  once ends := by
    simp [start, Course.start, Course.state, Runner.start, Lifecycle.start] at ends
  lost ends := nomatch ends
  finished ends := nomatch ends

namespace Graceful

variable {rig next : Rig κ σ} (graceful : rig.Graceful)

include graceful

omit [DecidableEq κ]

private theorem congr (actions : next.course.work.actions = rig.course.work.actions)
    (events : next.course.work.events = rig.course.work.events)
    (state : next.course.state = rig.course.state)
    (dialing : next.course.dialing = rig.course.dialing)
    (closing : next.gear.closing = rig.gear.closing) : next.Graceful := by
  refine ⟨?_, ?_, ?_, ?_, ?_⟩
  · rw [actions]
    exact graceful.wording
  · rw [state, closing]
    exact graceful.unasked
  · rw [state, closing, actions, events, dialing]
    exact graceful.once
  · rw [state, events, dialing]
    exact graceful.lost
  · rw [state, events, dialing]
    exact graceful.finished

/-- A session that waits takes the result of its attempt, or something that brings none. -/
private theorem attending (ready : rig.Ready) (waits : rig.course.Waits)
    (actions : next.course.work.actions = []) (state : next.course.state = rig.course.state)
    (turned : rig.course.TurnsTo next.course)
    (attempts : next.course.wires.attempts = rig.course.wires.attempts)
    (closing : next.gear.closing = rig.gear.closing) : next.Graceful := by
  have suits := ready.suits_of_waiting waits
  have lives := (Course.waits_iff.mp waits).2.1
  have once (ends : rig.course.state = .closing) := graceful.once (Or.inl ends)
  rw [waits.1] at once
  simp only [Work.actions, Work.events, List.countP_nil, List.count_nil] at once
  refine ⟨by simp [actions], ?_, ?_, ?_, ?_⟩
  · rw [state, closing]
    exact graceful.unasked
  · intro ends
    have bound := once ((state ▸ ends).resolve_right lives)
    have spent := turned.count_opened_le waits.1 actions attempts
    rw [closing, actions, List.countP_nil]
    omega
  · intro ends event member loss
    have ending := state ▸ ends
    rcases turned.dialing_of_loss waits.1 actions attempts member loss with fewer | ⟨same, lost⟩
    · have bound := once ending
      omega
    · rw [ending] at suits lost
      rw [same]
      rcases suits with ⟨none, _⟩ | ⟨_, _, _, idle⟩
      · rcases lost with connected | held
        · cases connected
        · exact absurd none held
      · rw [Course.dialing_of_waiting waits.1]
        exact idle
  · intro closed
    exact absurd (state ▸ closed) lives

/-- An action that asks the connection to close was to be carried out before, and a session that
ends loses nothing else by its actions. -/
private theorem acting (sound : rig.course.Sound) {action : Action} {actions : List Action}
    {events : List Event} {brought : Option Event}
    (work : rig.course.work = .busy (action :: actions) events)
    (left : next.course.work = .busy actions (events ++ brought.toList))
    (state : next.course.state = rig.course.state)
    (dialing : next.course.dialing = rig.course.dialing)
    (closing : next.gear.closing =
      (if action.asks then rig.course.runner.connection.toList else []) ++ rig.gear.closing)
    (brings : ∀ event ∈ brought, event.isLoss = true ∧
      (action.asks = true ∨ rig.course.state = .connected)) : next.Graceful := by
  obtain ⟨wording, unasked, once, lost, finished⟩ := graceful
  have ends (asks : action.asks = true) := sound.closing_of_asks work asks
  simp only [work, Work.actions, Work.events, List.countP_cons] at wording once lost finished
  have noOpening : brought.toList.count .opened = 0 := by
    apply List.count_eq_zero.mpr
    intro member
    cases (brings _ (Option.mem_toList.mp member)).1
  refine ⟨?_, ?_, ?_, ?_, ?_⟩
  · rw [left]
    exact fun code reason member => wording code reason (List.mem_cons_of_mem _ member)
  · rw [state, closing]
    intro runs
    rw [if_neg fun asks => runs (Or.inl (ends asks)), List.nil_append]
    exact unasked runs
  · rw [state, closing, left, dialing]
    intro ending
    have bound := once ending
    simp only [Work.actions, Work.events, List.length_append, List.count_append, noOpening]
    split
    · rename_i asks
      have single : rig.course.runner.connection.toList.length ≤ 1 := by
        cases rig.course.runner.connection <;> simp
      rw [if_pos asks] at bound
      omega
    · rename_i silent
      rw [if_neg silent] at bound
      simp only [List.length_nil]
      omega
  · rw [state, left, dialing]
    intro ending event member loss
    rcases List.mem_append.mp member with older | new
    · exact lost ending event older loss
    · rcases (brings event (Option.mem_toList.mp new)).2 with asks | connected
      · have bound := once (Or.inl ending)
        rw [if_pos asks] at bound
        omega
      · rw [ending] at connected
        cases connected
  · rw [state, left, dialing]
    intro closed
    obtain ⟨idle, last⟩ := finished closed
    refine ⟨idle, ?_⟩
    have quiet : brought = none := by
      refine Option.eq_none_iff_forall_not_mem.mpr fun event member => ?_
      rcases (brings event member).2 with asks | connected
      · rw [ends asks] at closed
        cases closed
      · rw [closed] at connected
        cases connected
    simp [Work.events, last, quiet]

private theorem handling (sound : rig.course.Sound) {event : Event} {events : List Event}
    (work : rig.course.work = .busy [] (event :: events))
    (left : next.course.work = .busy (rig.course.runner.lifecycle.handle event).2 events)
    (state : next.course.state = (rig.course.runner.lifecycle.handle event).1.state)
    (wires : next.course.wires = rig.course.wires)
    (closing : next.gear.closing = rig.gear.closing) : next.Graceful := by
  obtain rfl := sound.alone work
  have dialing : rig.course.dialing =
      rig.course.wires.attempts + rig.course.wires.reports.countP TransportEvent.isResult := by
    simp [Course.dialing, work, Work.actions]
  have dialingNext : next.course.dialing =
      (rig.course.runner.lifecycle.handle event).2.count .openTransport + rig.course.dialing := by
    rw [dialing]
    simp only [Course.dialing, left, wires, Work.actions]
  have expects := sound.expects event (by rw [work]; exact List.mem_cons_self)
  obtain ⟨_, unasked, once, lost, finished⟩ := graceful
  simp only [work, Work.actions, Work.events, List.countP_nil, Nat.add_zero] at once lost finished
  refine ⟨?_, ?_, ?_, ?_, ?_⟩
  · rw [left]
    exact fun code reason member => rig.course.runner.lifecycle.handle_closes event member
  · rw [state, closing]
    exact fun runs => unasked fun ends => runs (rig.course.runner.lifecycle.handle_ends event ends)
  · rw [state, closing, left, dialingNext]
    exact rig.course.runner.lifecycle.handle_once event expects
      (fun runs => List.length_eq_zero_iff.mpr (unasked runs)) once
  · rw [left]
    exact fun _ _ member => absurd member List.not_mem_nil
  · rw [state, left, dialingNext]
    intro closed
    refine ⟨?_, rfl⟩
    exact rig.course.runner.lifecycle.handle_over event expects
      (fun ends loss => lost ends event List.mem_cons_self loss) (fun ends => (finished ends).1) closed

/-- A session stays so with every turn. -/
theorem turn [DecidableEq κ] (terms : Terms σ) (sound : rig.course.Sound) (ready : rig.Ready)
    (next : Turn κ σ) : (rig.turn terms next).Graceful := by
  rcases rig.turnsTo_turn terms next with
    ⟨work, state, _, _, dialing, _, _, closing⟩ |
      ⟨waits, actions, state, turned, attempts, _, closing⟩ |
      ⟨work, left, state, _, dialing, _, _, closing, brings⟩ |
      ⟨work, left, state, _, wires, closing⟩ | ⟨work, left, state, _, wires, closing⟩
  · exact graceful.congr (by rw [work]) (by rw [work]) state dialing closing
  · exact graceful.attending ready waits actions state turned attempts closing
  · exact graceful.acting sound work left state dialing closing brings
  · exact graceful.handling sound work left state wires closing
  · have actions : (rig.turn terms next).course.work.actions = rig.course.work.actions := by
      rw [work, left]
      rfl
    refine graceful.congr actions (by rw [work, left]; rfl) state ?_ closing
    simp only [Course.dialing, actions, wires]

end Graceful

/-- What holds of a session with its record at any time. -/
structure Whole (rig : Rig κ σ) : Prop where
  sound : rig.course.Sound
  ready : rig.Ready
  settled : rig.course.Settled
  graceful : rig.Graceful

theorem Whole.turn {rig : Rig κ σ} (whole : rig.Whole) (next : Turn κ σ) :
    (rig.turn terms next).Whole where
  sound := whole.sound.turn terms next
  ready := whole.ready.turn terms whole.sound next
  settled := whole.settled.turn terms next
  graceful := whole.graceful.turn terms whole.sound whole.ready next

theorem whole_play (now : Instant) (time : Timestamp) (rest : σ) (turns : List (Turn κ σ)) :
    ((start terms now time rest).play terms turns).Whole :=
  play_keeps terms Whole (fun _ next whole => whole.turn terms next) _ turns
    ⟨Course.sound_start terms now time rest, ready_start terms now time rest,
      Course.settled_start terms now time rest, graceful_start terms now time rest⟩

/-- A session asks its connection to close, in the usual words, or no connection. -/
theorem Graceful.closing_turn {rig : Rig κ σ} (graceful : rig.Graceful) (next : Turn κ σ) :
    (rig.turn terms next).gear.closing = rig.gear.closing ∨
      next = .proceed ∧
        (∃ actions events, rig.course.work = .busy (Lifecycle.closeForGood :: actions) events) ∧
        (rig.turn terms next).gear.closing =
          rig.course.runner.connection.toList ++ rig.gear.closing := by
  cases next with
  | proceed =>
    rcases rig.turnsTo_turn terms .proceed with
      ⟨_, _, _, _, _, _, _, closing⟩ | ⟨_, _, _, _, _, _, closing⟩ |
        @⟨action, actions, events, _, work, _, _, _, _, _, _, closing, _⟩ |
        ⟨_, _, _, _, _, closing⟩ | ⟨_, _, _, _, _, closing⟩
    · exact Or.inl closing
    · exact Or.inl closing
    · cases action with
      | closeTransport code reason =>
        have wording := graceful.wording code reason (by rw [work]; exact List.mem_cons_self)
        rw [wording] at work
        exact Or.inr ⟨rfl, ⟨actions, events, work⟩, closing⟩
      | _ => exact Or.inl closing
    · exact Or.inl closing
    · exact Or.inl closing
  | take choice => exact Or.inl (rig.closing_take terms choice)
  | _ => exact Or.inl rfl

omit [DecidableEq κ] in
theorem Graceful.single {rig : Rig κ σ} (graceful : rig.Graceful) :
    rig.gear.closing.length ≤ 1 := by
  by_cases ends : rig.course.state = .closing ∨ rig.course.state = .closed
  · have bound := graceful.once ends
    omega
  · rw [graceful.unasked ends]
    exact Nat.zero_le 1

end Rig

end Tether.Session
