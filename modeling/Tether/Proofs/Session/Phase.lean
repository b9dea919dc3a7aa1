import Tether.Proofs.Session.Deed

namespace Tether.Session

open Time (Instant Timestamp)
open Transport (ConnectionId)

variable {κ σ : Type}

/-- Whether an action may bring about an event. -/
def Action.provokes : Action → Bool
  | .flushQueue => true
  | .closeTransport _ _ => true
  | _ => false

namespace Lifecycle

/-- What the actions after an event have in common, whatever the event. -/
structure Asks (state : State) (actions : List Action) : Prop where
  /-- At most one of them brings about another event. -/
  provokes : actions.countP Action.provokes ≤ 1
  /-- Letting go of the connection comes before everything else. -/
  dropsFirst : .dropTransport ∉ actions.tail
  /-- Only a session that ends closes its connection. -/
  closes : ∀ code reason, .closeTransport code reason ∈ actions → state = .closing
  /-- Requests are put back only when the connection is let go. -/
  requeues : .requeueUnanswered ∈ actions → .dropTransport ∈ actions

theorem asks_onLoss (machine : Lifecycle) : Asks .disconnected machine.onLoss := by
  unfold onLoss
  cases machine.resend with
  | true => constructor <;> simp [Action.provokes]
  | false => constructor <;> simp [Action.provokes]

@[simp] theorem dropTransport_mem_onLoss (machine : Lifecycle) :
    .dropTransport ∈ machine.onLoss :=
  List.mem_cons_self

@[simp] theorem count_openTransport_onLoss (machine : Lifecycle) :
    machine.onLoss.count .openTransport = 0 := by
  unfold onLoss
  cases machine.resend <;> simp

theorem asks_handle (machine : Lifecycle) (event : Event) :
    Asks (machine.handle event).1.state (machine.handle event).2 := by
  unfold handle
  split
  case h_9 frame _ =>
    split
    · constructor <;> simp [Action.provokes]
    · exact machine.asks_onLoss
  case h_10 => exact machine.asks_onLoss
  case h_12 closing =>
    refine ⟨?_, ?_, fun _ _ _ => closing, ?_⟩ <;> simp [closeForGood, Action.provokes]
  all_goals constructor <;> simp [closeForGood, List.countP_cons, Action.provokes]

theorem resend_handle (machine : Lifecycle) (event : Event) :
    (machine.handle event).1.resend = machine.resend := by
  unfold handle
  split
  case h_9 => split <;> rfl
  all_goals rfl

end Lifecycle

/-- Whether a report is the result of an attempt. -/
def TransportEvent.isResult : TransportEvent → Bool
  | .opened _ => true
  | .refused _ => true
  | _ => false

/-- What a session has when it waits: no connection and no attempt, or one attempt, or no attempt
and perhaps a connection. -/
def State.Rests (held : Option ConnectionId) (dialing : Nat) : State → Prop
  | .disconnected => held = none ∧ dialing = 0
  | .connecting => held = none ∧ dialing = 1
  | .connected => dialing = 0
  | .closing => True
  | .closed => True

/-- What a session has when an event is about to be handled. The result of an attempt counts as
taken. -/
def State.Expects (held : Option ConnectionId) (dialing : Nat) : Event → State → Prop
  | .opened, state => state = .connecting ∧ dialing = 0 ∨ state = .closing ∨ state = .closed
  | .failed _, .connecting => dialing = 0
  | .closed _, .connecting => dialing = 0
  | _, state => state.Rests held dialing

namespace State

variable {held : Option ConnectionId} {id : ConnectionId} {dialing : Nat} {state : State}

theorem Rests.expects_opened (rests : state.Rests held (dialing + 1)) :
    state.Expects (some id) dialing .opened := by
  cases state with
  | disconnected => exact absurd rests.2 (Nat.succ_ne_zero _)
  | connecting => exact Or.inl ⟨rfl, Nat.succ.inj rests.2⟩
  | connected => exact absurd rests (Nat.succ_ne_zero _)
  | closing => exact Or.inr (Or.inl rfl)
  | closed => exact Or.inr (Or.inr rfl)

theorem Rests.expects_refused (rests : state.Rests held (dialing + 1)) (reason : String) :
    state.Expects held dialing (.failed reason) := by
  cases state with
  | disconnected => exact absurd rests.2 (Nat.succ_ne_zero _)
  | connecting => exact Nat.succ.inj rests.2
  | connected => exact absurd rests (Nat.succ_ne_zero _)
  | closing => trivial
  | closed => trivial

theorem Rests.expects_loss (rests : state.Rests (some id) dialing) {event : Event}
    (loss : (∃ reason, event = .failed reason) ∨ ∃ frame, event = .closed frame) :
    state.Expects (some id) dialing event := by
  have idle : state ≠ .connecting := by
    rintro rfl
    exact absurd rests.1 (Option.some_ne_none id)
  rcases loss with ⟨reason, rfl⟩ | ⟨frame, rfl⟩
  · cases state <;> first | exact absurd rfl idle | exact rests
  · cases state <;> first | exact absurd rfl idle | exact rests

end State

/-- An event that is handled leaves the session with what it should have. -/
theorem Lifecycle.rests_handle (machine : Lifecycle) (event : Event) (held : Option ConnectionId)
    (dialing : Nat) (expects : machine.state.Expects held dialing event) :
    (machine.handle event).1.state.Rests
      (if .dropTransport ∈ (machine.handle event).2 then none else held)
      ((machine.handle event).2.count .openTransport + dialing) := by
  obtain ⟨state, backoff, resend, failures⟩ := machine
  cases state with
  | disconnected => cases event <;> simp_all [handle, State.Expects, State.Rests]
  | connecting => cases event <;> simp_all [handle, State.Expects, State.Rests, failing]
  | connected =>
    cases event with
    | closed frame =>
      simp only [handle]
      split
      · trivial
      · simp_all [State.Expects, State.Rests, failing]
    | _ => simp_all [handle, State.Expects, State.Rests, failing]
  | closing => cases event <;> simp [handle, State.Rests]
  | closed => cases event <;> simp [handle, State.Rests]

namespace Runner

/-- Only a flush on an open connection and a close bring about events, of a failure or a close. -/
theorem perform_followUp (outside : Surroundings σ) (runner : Runner κ σ) (action : Action)
    (event : Event) (follows : (runner.perform outside action).followUp = some event) :
    action.provokes ∧ ((∃ reason, event = .failed reason) ∨ ∃ frame, event = .closed frame) ∧
      (action = .flushQueue → runner.lifecycle.state = .connected) := by
  cases action with
  | flushQueue =>
    simp only [perform, flush] at follows
    split at follows
    · rename_i connected _
      obtain ⟨failure, _, rfl⟩ := Option.map_eq_some_iff.mp follows
      exact ⟨rfl, Or.inl ⟨_, rfl⟩, fun _ => connected⟩
    · cases follows
  | closeTransport code reason =>
    simp only [perform, close] at follows
    split at follows
    · cases follows
      exact ⟨rfl, Or.inr ⟨_, rfl⟩, by simp⟩
    · obtain ⟨failure, _, rfl⟩ := Option.map_eq_some_iff.mp follows
      exact ⟨rfl, Or.inl ⟨_, rfl⟩, by simp⟩
  | scheduleReconnect delay =>
    simp only [perform] at follows
    split at follows <;> cases follows
  | openTransport => cases follows
  | requeueUnanswered => cases follows
  | cancelReconnect => cases follows
  | dropTransport => cases follows
  | dispatch frame => cases follows
  | failPending => cases follows

variable (terms : Terms σ) (now : Instant) (time : Timestamp) (runner : Runner κ (Wires σ))

theorem perform_leaves (action : Action) :
    (runner.perform (terms.outside now time) action).runner.lifecycle =
        runner.lifecycle ∧
      (runner.perform (terms.outside now time) action).runner.connection =
        (if action = .dropTransport then none else runner.connection) ∧
      (runner.perform (terms.outside now time) action).runner.world.attempts =
        [action].count .openTransport + runner.world.attempts ∧
      (runner.perform (terms.outside now time) action).runner.world.reports =
        runner.world.reports ∧
      (runner.perform (terms.outside now time) action).runner.world.opened =
        runner.world.opened ∧
      (runner.perform (terms.outside now time) action).runner.world.readers =
        runner.world.readers := by
  cases action with
  | flushQueue =>
    simp only [perform]
    rcases Runner.flush_cases terms now time runner with
      ⟨same, _⟩ | ⟨line, count, rest, failure, _, _, _, flushed, _⟩
    · rw [same]
      simp
    · rw [flushed]
      simp
  | openTransport => simp [perform, Port.carrier, Nat.add_comm]
  | scheduleReconnect delay =>
    simp only [perform]
    split <;> simp
  | closeTransport code reason =>
    simp only [perform, close]
    split <;> simp [Port.carrier]
  | dropTransport =>
    simp only [perform, dropTransport]
    split <;> simp [Port.carrier, *]
  | requeueUnanswered => simp [perform]
  | cancelReconnect => simp [perform]
  | dispatch frame => simp [perform]
  | failPending => simp [perform]

end Runner

namespace Course

/-- The connection in use, unless it is about to be let go. -/
def held (course : Course κ σ) : Option ConnectionId :=
  if .dropTransport ∈ course.work.actions then none else course.runner.connection

/-- How many attempts are asked for, under way, or over without the session knowing. -/
def dialing (course : Course κ σ) : Nat :=
  course.work.actions.count .openTransport +
    (course.wires.attempts + course.wires.reports.countP TransportEvent.isResult)

/-- The session has what it should have, and is at what some event asked for. -/
structure Sound (course : Course κ σ) : Prop where
  rests : course.work.events = [] → course.state.Rests course.held course.dialing
  expects : ∀ event ∈ course.work.events, course.state.Expects course.held course.dialing event
  provokes : course.work.actions.countP Action.provokes + course.work.events.length ≤ 1
  dropsFirst : .dropTransport ∉ course.work.actions.tail
  closes : ∀ code reason, .closeTransport code reason ∈ course.work.actions →
    course.state = .closing
  requeues : .requeueUnanswered ∈ course.work.actions → course.held = none

theorem sound_start (terms : Terms σ) (now : Instant) (time : Timestamp) (rest : σ) :
    (start terms now time rest : Course κ σ).Sound where
  rests waits := nomatch waits
  expects event member := by
    rw [List.mem_singleton.mp member]
    exact ⟨rfl, rfl⟩
  provokes := Nat.le_refl 1
  dropsFirst := List.not_mem_nil
  closes _ _ member := nomatch member
  requeues member := nomatch member

/-- Nothing waits behind an event that is about to be handled. -/
theorem Sound.alone {course : Course κ σ} (sound : course.Sound) {event : Event}
    {events : List Event} (work : course.work = .busy [] (event :: events)) : events = [] := by
  have single := sound.provokes
  rw [work] at single
  simp only [Work.actions, Work.events, List.countP_nil, List.length_cons] at single
  exact List.length_eq_zero_iff.mp (by omega)

/-- What an action brings about is a failure or a close. It comes alone, to a session that is
connected or ends. -/
theorem Sound.provoked {course : Course κ σ} (sound : course.Sound) {action : Action}
    {actions : List Action} {events : List Event}
    (work : course.work = .busy (action :: actions) events) (outside : Surroundings (Wires σ))
    {event : Event} (follows : (course.runner.perform outside action).followUp = some event) :
    (events = [] ∧ actions.countP Action.provokes = 0) ∧
      ((∃ reason, event = .failed reason) ∨ ∃ frame, event = .closed frame) ∧
      (course.state = .connected ∨ course.state = .closing) := by
  obtain ⟨provokes, loss, connected⟩ := Runner.perform_followUp outside course.runner action event
    follows
  refine ⟨?_, loss, ?_⟩
  · have single := sound.provokes
    rw [work] at single
    simp only [Work.actions, Work.events, List.countP_cons, provokes, ↓reduceIte] at single
    exact ⟨List.length_eq_zero_iff.mp (by omega), by omega⟩
  · cases action with
    | flushQueue => exact Or.inl (connected rfl)
    | closeTransport code reason =>
      exact Or.inr (sound.closes code reason (by rw [work]; exact List.mem_cons_self))
    | _ => cases provokes

theorem Sound.congr {course next : Course κ σ} (sound : course.Sound)
    (work : next.work = course.work) (state : next.state = course.state)
    (connection : next.runner.connection = course.runner.connection)
    (attempts : next.wires.attempts + next.wires.reports.countP TransportEvent.isResult =
      course.wires.attempts + course.wires.reports.countP TransportEvent.isResult) :
    next.Sound := by
  have held : next.held = course.held := by unfold Course.held; rw [work, connection]
  have dialing : next.dialing = course.dialing := by unfold Course.dialing; rw [work, attempts]
  constructor <;> rw [work]
  · rw [state, held, dialing]
    exact sound.rests
  · rw [state, held, dialing]
    exact sound.expects
  · exact sound.provokes
  · exact sound.dropsFirst
  · rw [state]
    exact sound.closes
  · rw [held]
    exact sound.requeues

theorem sound_on {course : Course κ σ} (event : Option Event) (work : course.work = .on event)
    (rests : event = none →
      course.state.Rests course.runner.connection
        (course.wires.attempts + course.wires.reports.countP TransportEvent.isResult))
    (expects : ∀ next, event = some next →
      course.state.Expects course.runner.connection
        (course.wires.attempts + course.wires.reports.countP TransportEvent.isResult) next) :
    course.Sound := by
  have idle : course.work.actions = [] := by rw [work, Work.actions_on]
  have held : course.held = course.runner.connection := by simp [Course.held, idle]
  have dialing : course.dialing =
      course.wires.attempts + course.wires.reports.countP TransportEvent.isResult := by
    simp [Course.dialing, idle]
  refine ⟨?_, ?_, ?_, ?_, ?_, ?_⟩
  · intro done
    rw [held, dialing]
    refine rests ?_
    cases event with
    | none => rfl
    | some event =>
      rw [work] at done
      cases done
  · intro next member
    rw [held, dialing]
    refine expects next ?_
    rw [work] at member
    cases event with
    | none => cases member
    | some event => rw [List.mem_singleton.mp member]
  · rw [idle, work]
    cases event <;> simp [Work.on, Work.events]
  · rw [idle]
    exact List.not_mem_nil
  · intro code reason member
    rw [idle] at member
    cases member
  · intro member
    rw [idle] at member
    cases member

theorem Sound.rests_of_waiting {course : Course κ σ} (sound : course.Sound)
    (idle : course.work = .waiting) :
    course.state.Rests course.runner.connection
      (course.wires.attempts + course.wires.reports.countP TransportEvent.isResult) := by
  have rests := sound.rests (by rw [idle]; rfl)
  simpa [held, dialing, idle, Work.actions] using rests

variable (terms : Terms σ)

private theorem Sound.flush {course : Course κ σ} (sound : course.Sound)
    (idle : course.work = .waiting) : (course.attend terms .flush).Sound := by
  have rests := sound.rests_of_waiting idle
  simp only [attend]
  rcases Runner.flush_cases terms course.now course.time course.runner with
    ⟨same, _⟩ | ⟨line, count, rest, failure, connected, _, _, flushed, _⟩
  · rw [same]
    exact sound_on none rfl (fun _ => rests) (by simp)
  · rw [flushed]
    refine sound_on _ rfl (fun _ => rests) ?_
    intro next follows
    obtain ⟨reason, _, rfl⟩ := Option.map_eq_some_iff.mp follows
    change course.state.Expects _ _ _
    change course.state = .connected at connected
    rw [connected] at rests ⊢
    exact rests

theorem attend_leaves {course : Course κ σ} (idle : course.work = .waiting) (choice : Choice) :
    (course.attend terms choice).runner.lifecycle = course.runner.lifecycle ∧
      (course.attend terms choice).work.actions = [] ∧
      ((course.attend terms choice).runner.connection = course.runner.connection ∨
        ∃ id reports, course.wires.reports = .opened id :: reports ∧
          (course.attend terms choice).runner.connection = some id) := by
  have none : course.work.actions = [] := by rw [idle]; rfl
  cases choice with
  | flush =>
    simp only [attend]
    rcases Runner.flush_cases terms course.now course.time course.runner with
      ⟨same, _⟩ | ⟨line, count, rest, failure, _, _, _, flushed, _⟩
    · rw [same]
      exact ⟨rfl, rfl, Or.inl rfl⟩
    · rw [flushed]
      exact ⟨rfl, Work.actions_on _, Or.inl rfl⟩
  | report =>
    simp only [attend]
    cases course.wires.reports with
    | nil => exact ⟨rfl, none, Or.inl rfl⟩
    | cons report reports =>
      cases report with
      | opened id =>
        refine ⟨?_, rfl, Or.inr ⟨id, reports, rfl, rfl⟩⟩
        simp only [Runner.receive, Runner.dropTransport]
        split <;> rfl
      | _ => exact ⟨rfl, by simp, Or.inl rfl⟩
  | disconnect => exact ⟨rfl, rfl, Or.inl rfl⟩
  | delay =>
    simp only [attend]
    split
    · exact ⟨rfl, rfl, Or.inl rfl⟩
    · exact ⟨rfl, none, Or.inl rfl⟩
  | sweep => exact ⟨rfl, none, Or.inl rfl⟩

theorem attend_wires (course : Course κ σ) (choice : Choice) :
    (course.attend terms choice).wires.attempts = course.wires.attempts ∧
      (course.attend terms choice).wires.reports =
        (if choice = .report then course.wires.reports.tail else course.wires.reports) ∧
      (course.attend terms choice).wires.opened = course.wires.opened ∧
      ((course.attend terms choice).wires.readers = course.wires.readers ∨
        ∃ id, .opened id ∈ course.wires.reports) := by
  cases choice with
  | flush =>
    simp only [attend]
    rcases Runner.flush_cases terms course.now course.time course.runner with
      ⟨same, _⟩ | ⟨line, count, rest, failure, _, _, _, flushed, _⟩
    · rw [same]
      exact ⟨rfl, rfl, rfl, Or.inl rfl⟩
    · rw [flushed]
      exact ⟨rfl, rfl, rfl, Or.inl rfl⟩
  | report =>
    simp only [attend]
    cases queued : course.wires.reports with
    | nil => exact ⟨rfl, queued, rfl, Or.inl rfl⟩
    | cons report reports =>
      cases report with
      | opened id =>
        simp only [Runner.receive, Runner.dropTransport]
        split <;> exact ⟨rfl, rfl, rfl, Or.inr ⟨id, List.mem_cons_self⟩⟩
      | _ => exact ⟨rfl, rfl, rfl, Or.inl rfl⟩
  | disconnect => exact ⟨rfl, rfl, rfl, Or.inl rfl⟩
  | delay =>
    simp only [attend]
    split <;> exact ⟨rfl, rfl, rfl, Or.inl rfl⟩
  | sweep => exact ⟨rfl, rfl, rfl, Or.inl rfl⟩

theorem advance_wires (course : Course κ σ) :
    (course.advance terms).wires.reports = course.wires.reports ∧
      (course.advance terms).wires.opened = course.wires.opened ∧
      (course.advance terms).wires.readers = course.wires.readers := by
  rcases course.advance_cases terms with
    same | ⟨action, _, _, _, _, acts⟩ | ⟨_, _, _, handles⟩ | ⟨_, _, publishes⟩
  · rw [same]
    exact ⟨rfl, rfl, rfl⟩
  · rw [acts]
    exact (Runner.perform_leaves terms course.now course.time course.runner action).2.2.2
  · rw [handles]
    exact ⟨rfl, rfl, rfl⟩
  · rw [publishes]
    exact ⟨rfl, rfl, rfl⟩

/-- A report of a connection is handled if that is the one in use. -/
private theorem sound_of_report {course next : Course κ σ} {event : Event} {id : ConnectionId}
    (work : next.work = .on (if course.runner.isCurrent id then some event else none))
    (state : next.state = course.state)
    (connection : next.runner.connection = course.runner.connection)
    (rests : course.state.Rests course.runner.connection
      (next.wires.attempts + next.wires.reports.countP TransportEvent.isResult))
    (expects : course.state.Rests (some id)
        (next.wires.attempts + next.wires.reports.countP TransportEvent.isResult) →
      course.state.Expects (some id)
        (next.wires.attempts + next.wires.reports.countP TransportEvent.isResult) event) :
    next.Sound := by
  by_cases current : course.runner.isCurrent id
  · have line : course.runner.connection = some id := by simpa [Runner.isCurrent] using current
    rw [if_pos current] at work
    refine sound_on _ work (by simp) ?_
    intro taken same
    cases same
    rw [state, connection, line]
    exact expects (line ▸ rests)
  · rw [if_neg current] at work
    refine sound_on _ work ?_ (by simp)
    intro _
    rw [state, connection]
    exact rests

private theorem Sound.report {course : Course κ σ} (sound : course.Sound)
    (idle : course.work = .waiting) : (course.attend terms .report).Sound := by
  have rests := sound.rests_of_waiting idle
  simp only [attend]
  cases queued : course.wires.reports with
  | nil => exact sound
  | cons report reports =>
    rw [queued, List.countP_cons] at rests
    cases report with
    | opened id =>
      refine sound_on (some .opened) rfl (by simp) ?_
      intro taken same
      cases same
      simp only [Runner.receive, Runner.dropTransport]
      split <;> exact rests.expects_opened
    | refused reason =>
      refine sound_on (some (.failed reason)) rfl (by simp) ?_
      intro taken same
      cases same
      exact rests.expects_refused reason
    | message id frame => exact sound_of_report rfl rfl rfl rests fun rests => rests
    | closed id frame =>
      exact sound_of_report rfl rfl rfl rests fun rests =>
        rests.expects_loss (Or.inr ⟨frame, rfl⟩)
    | failed id reason =>
      exact sound_of_report rfl rfl rfl rests fun rests =>
        rests.expects_loss (Or.inl ⟨reason, rfl⟩)

private theorem Sound.attend {course : Course κ σ} (sound : course.Sound)
    (idle : course.work = .waiting) (choice : Choice) : (course.attend terms choice).Sound := by
  have rests := sound.rests_of_waiting idle
  cases choice with
  | flush => exact sound.flush terms idle
  | report => exact sound.report terms idle
  | sweep => exact sound.congr rfl rfl rfl rfl
  | disconnect =>
    refine sound_on (some .disconnect) rfl (by simp) ?_
    intro taken same
    cases same
    exact rests
  | delay =>
    simp only [Course.attend]
    split
    · refine sound_on (some .delayElapsed) rfl (by simp) ?_
      intro taken same
      cases same
      exact rests
    · exact sound

/-- No action changes the state, or the connection that the session will still have after the
actions that are left. -/
theorem Sound.held_of_action {course : Course κ σ} (sound : course.Sound) {action : Action}
    {actions : List Action} {events : List Event}
    (work : course.work = .busy (action :: actions) events)
    (next : course.advance terms = { course with
      runner := (course.runner.perform (terms.outside course.now course.time) action).runner
      work := .busy actions (events ++
        (course.runner.perform (terms.outside course.now course.time) action).followUp.toList)
      news := course.news ++
        (course.runner.perform (terms.outside course.now course.time) action).news }) :
    (course.advance terms).state = course.state ∧ (course.advance terms).held = course.held := by
  obtain ⟨lifecycle, connection, _⟩ :=
    Runner.perform_leaves terms course.now course.time course.runner action
  have later : .dropTransport ∉ actions := by simpa [work, Work.actions] using sound.dropsFirst
  rw [next]
  refine ⟨congrArg Lifecycle.state lifecycle, ?_⟩
  simp only [Course.held, work, Work.actions, connection, List.mem_cons, later, or_false,
    ↓reduceIte, eq_comm]

/-- An action leaves the session with what it had. -/
private theorem Sound.action {course : Course κ σ} (sound : course.Sound) {action : Action}
    {actions : List Action} {events : List Event}
    (work : course.work = .busy (action :: actions) events)
    (next : course.advance terms = { course with
      runner := (course.runner.perform (terms.outside course.now course.time) action).runner
      work := .busy actions (events ++
        (course.runner.perform (terms.outside course.now course.time) action).followUp.toList)
      news := course.news ++
        (course.runner.perform (terms.outside course.now course.time) action).news }) :
    (course.advance terms).Sound := by
  obtain ⟨state, held⟩ := sound.held_of_action terms work next
  obtain ⟨_, _, attempts, reports, _⟩ :=
    Runner.perform_leaves terms course.now course.time course.runner action
  have provoked (event : Event) (follows : (course.runner.perform
      (terms.outside course.now course.time) action).followUp = some event) :=
    sound.provoked work _ follows
  generalize course.runner.perform (terms.outside course.now course.time) action = effect
    at attempts reports provoked next
  obtain ⟨rests, expects, provokes, dropsFirst, closes, requeues⟩ := sound
  simp only [work, Work.actions, Work.events, List.tail_cons, List.countP_cons]
    at rests expects provokes dropsFirst closes requeues
  have dialing : (course.advance terms).dialing = course.dialing := by
    simp only [Course.dialing, next, work, Work.actions, wires, attempts, reports]
    simp only [List.count_cons, List.count_nil]
    omega
  refine ⟨?_, ?_, ?_, ?_, ?_, ?_⟩
  · rw [state, held, dialing, next]
    intro done
    exact rests (List.append_eq_nil_iff.mp done).1
  · rw [state, held, dialing, next]
    intro event member
    rcases List.mem_append.mp member with older | new
    · exact expects event older
    · obtain ⟨⟨done, _⟩, loss, stands⟩ := provoked event (Option.mem_toList.mp new)
      have resting := rests done
      rcases stands with stands | stands
      · rw [stands] at resting ⊢
        rcases loss with ⟨reason, rfl⟩ | ⟨frame, rfl⟩
        · exact resting
        · exact resting
      · rw [stands]
        rcases loss with ⟨reason, rfl⟩ | ⟨frame, rfl⟩
        · trivial
        · trivial
  · rw [next]
    simp only [Work.actions, Work.events, List.length_append]
    cases brought : effect.followUp with
    | none =>
      simp only [Option.toList_none, List.length_nil]
      omega
    | some event =>
      obtain ⟨⟨none, rest⟩, _⟩ := provoked event brought
      simp [none, rest]
  · rw [next]
    exact fun member => dropsFirst (List.mem_of_mem_tail member)
  · rw [state, next]
    exact fun code reason member => closes code reason (List.mem_cons_of_mem _ member)
  · rw [held, next]
    exact fun member => requeues (List.mem_cons_of_mem _ member)

/-- An event that is handled leaves the session with what it should have. -/
private theorem Sound.event {course : Course κ σ} (sound : course.Sound) {event : Event}
    {events : List Event} (work : course.work = .busy [] (event :: events)) :
    Sound { course with
      runner := { course.runner with lifecycle := (course.runner.lifecycle.handle event).1 }
      work := .busy (course.runner.lifecycle.handle event).2 events } := by
  obtain rfl := sound.alone work
  have expects := sound.expects
  simp only [work, Work.events] at expects
  have asks := course.runner.lifecycle.asks_handle event
  have expected : course.state.Expects course.runner.connection
      (course.wires.attempts + course.wires.reports.countP TransportEvent.isResult) event := by
    simpa [held, dialing, work, Work.actions] using expects event List.mem_cons_self
  have rests := course.runner.lifecycle.rests_handle event _ _ expected
  refine ⟨fun _ => rests, by simp [Work.events], asks.provokes, asks.dropsFirst, asks.closes, ?_⟩
  intro requeues
  exact if_pos (asks.requeues requeues)

private theorem Sound.advance {course : Course κ σ} (sound : course.Sound) :
    (course.advance terms).Sound := by
  rcases course.advance_cases terms with
    same | ⟨action, actions, events, work, _, next⟩ | ⟨event, events, work, next⟩ |
      ⟨published, work, next⟩
  · rw [same]
    exact sound
  · exact sound.action terms work next
  · rw [next]
    exact sound.event work
  · have rests : course.state.Rests course.runner.connection
        (course.wires.attempts + course.wires.reports.countP TransportEvent.isResult) := by
      simpa [held, dialing, work, Work.actions] using sound.rests (by rw [work]; rfl)
    rw [next]
    exact sound_on none rfl (fun _ => rests) (by simp)

private theorem Sound.endAttempt {course : Course κ σ} (sound : course.Sound)
    (opened : List ConnectionId) {report : TransportEvent} (result : report.isResult) :
    (course.endAttempt opened report).Sound := by
  rcases course.endAttempt_cases opened report with same | ⟨some, ends⟩
  · rw [same]
    exact sound
  · rw [ends]
    refine sound.congr rfl rfl rfl ?_
    simp only [wires, withWires, List.countP_append, List.countP_singleton, result] at some ⊢
    simp only [↓reduceIte]
    omega

private theorem Sound.read {course : Course κ σ} (sound : course.Sound) (id : ConnectionId)
    (last : Bool) {report : TransportEvent} (other : report.isResult = false) :
    (course.read id last report).Sound := by
  rcases course.read_cases id last report with same | ⟨readers, reads⟩
  · rw [same]
    exact sound
  · rw [reads]
    refine sound.congr rfl rfl rfl ?_
    simp [wires, withWires, List.countP_append, other]

/-- Every turn keeps a session sound. -/
theorem Sound.turn [DecidableEq κ] {course : Course κ σ} (sound : course.Sound)
    (next : Turn κ σ) : (course.turn terms next).Sound := by
  cases next with
  | submit message caller => exact sound.congr rfl rfl rfl rfl
  | notify message =>
    simp only [Course.turn]
    split
    · exact sound.congr rfl rfl rfl rfl
    · exact sound
  | abandon caller => exact sound.congr rfl rfl rfl rfl
  | tick now time => exact sound.congr rfl rfl rfl rfl
  | happen change => exact sound.congr rfl rfl rfl rfl
  | openLine id =>
    simp only [Course.turn]
    split
    · exact sound
    · exact sound.endAttempt [id] rfl
  | refuse reason => exact sound.endAttempt [] rfl
  | arrive id frame => exact sound.read id false rfl
  | hangUp id frame => exact sound.read id true rfl
  | breakLine id reason => exact sound.read id true rfl
  | take choice =>
    rcases course.turn_take_cases terms choice with same | ⟨waits, next⟩
    · rw [same]
      exact sound
    · rw [next]
      exact sound.attend terms waits.1 choice
  | proceed => exact sound.advance terms

/-- Requests are put back only after the connection was let go. -/
theorem Sound.connection_of_requeue {course : Course κ σ} (sound : course.Sound) {next : Turn κ σ}
    (requeues : course.deed terms next = .requeue) : course.runner.connection = none := by
  obtain ⟨actions, events, work⟩ := deed_eq_requeue terms requeues
  have later : .dropTransport ∉ actions := by simpa [work, Work.actions] using sound.dropsFirst
  have parted := sound.requeues (by rw [work]; exact List.mem_cons_self)
  simpa [held, work, Work.actions, later] using parted

theorem Sound.held_of_ship {course : Course κ σ} (sound : course.Sound) {next : Turn κ σ}
    {line : ConnectionId} {count : Nat} (ships : course.deed terms next = .ship line count) :
    course.held = some line := by
  obtain ⟨_, current, _, none | ⟨actions, work⟩⟩ := deed_eq_ship terms ships
  · simpa [held, none] using current
  · have later : .dropTransport ∉ actions := by simpa [work] using sound.dropsFirst
    simpa [held, work, later] using current

/-- A session is sound throughout its course. -/
theorem sound_play [DecidableEq κ] (now : Instant) (time : Timestamp) (rest : σ)
    (turns : List (Turn κ σ)) : ((start terms now time rest).play terms turns).Sound :=
  play_keeps terms Sound (fun _ next sound => sound.turn terms next) _ turns
    (sound_start terms now time rest)

end Course

end Tether.Session
