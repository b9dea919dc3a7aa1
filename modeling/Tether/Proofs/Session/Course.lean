import Tether.Session.Runner

/-! A session lives among callers, connection attempts and the readers of its connections, and all
of them take turns in any order. A caller may come between any two actions of the session, a
connection may refuse any frame, and anything may arrive on it at any time.

A course also keeps what the session itself does not: the attempts and readers that are under way,
what they have reported, and every frame that a connection accepted. -/

namespace Tether.Session

open Message (ClientMessage)
open Time (Instant Timestamp)
open Transport (CloseFrame ConnectionId TransportError)

variable {κ σ : Type}

/-- How the sends and closes of connections end, in any way that may depend on the world `σ`. -/
structure Port (σ : Type) where
  send : ConnectionId → Bytes → σ → Option TransportError × σ
  close : ConnectionId → UInt16 → String → σ → Option TransportError × σ

/-- What runs beside a session. -/
structure Wires (σ : Type) where
  /-- How many attempts have no result yet. -/
  attempts : Nat
  /-- The connections whose arrivals are being reported. -/
  readers : List ConnectionId
  /-- Reports that the session has not taken, the oldest first. -/
  reports : List TransportEvent
  /-- Every connection that was ever opened. -/
  opened : List ConnectionId
  /-- Every frame that a connection accepted, the oldest first. -/
  accepted : List (ConnectionId × Bytes)
  rest : σ

/-- Connections over a port. -/
def Port.carrier (port : Port σ) : Carrier (Wires σ) where
  dial wires := { wires with attempts := wires.attempts + 1 }
  listen id wires := { wires with readers := id :: wires.readers }
  send id frame wires :=
    match port.send id frame wires.rest with
    | (some failure, rest) => (some failure, { wires with rest })
    | (none, rest) => (none, { wires with rest, accepted := wires.accepted ++ [(id, frame)] })
  close id code reason wires :=
    let (failure, rest) := port.close id code reason wires.rest
    (failure, { wires with rest })
  -- The reader may have found something already, and reports it all the same.
  letGo _ wires := wires

/-- What does not change during a course. -/
structure Terms (σ : Type) where
  settings : Settings
  signing : Signing
  port : Port σ

/-- What a session finds outside at some time. -/
def Terms.outside (terms : Terms σ) (now : Instant) (time : Timestamp) : Surroundings (Wires σ) :=
  ⟨terms.port.carrier, terms.signing, now, time⟩

@[simp] theorem Terms.outside_carrier (terms : Terms σ) (now : Instant) (time : Timestamp) :
    (terms.outside now time).carrier = terms.port.carrier := rfl

@[simp] theorem Terms.outside_signing (terms : Terms σ) (now : Instant) (time : Timestamp) :
    (terms.outside now time).signing = terms.signing := rfl

@[simp] theorem Terms.outside_time (terms : Terms σ) (now : Instant) (time : Timestamp) :
    (terms.outside now time).time = time := rfl

/-- Standard settings without keys, over connections that take everything. -/
def Terms.plain : Terms Unit where
  settings := .standard
  signing := ⟨Crypto.ed25519, none⟩
  port := ⟨fun _ _ _ => (none, ()), fun _ _ _ _ => (none, ())⟩

/-- What the session is at. -/
inductive Work where
  /-- It waits for something to happen. -/
  | waiting
  /-- It carries out actions, and handles events after them. -/
  | busy (actions : List Action) (events : List Event)

namespace Work

def actions : Work → List Action
  | waiting => []
  | busy actions _ => actions

def events : Work → List Event
  | waiting => []
  | busy _ events => events

/-- The work that something makes for a session, if it makes any. -/
def on : Option Event → Work
  | none => waiting
  | some event => busy [] [event]

@[simp] theorem actions_on (event : Option Event) : (on event).actions = [] := by
  cases event <;> rfl

@[simp] theorem events_on (event : Option Event) : (on event).events = event.toList := by
  cases event <;> rfl

end Work

/-- A session with everything around it, at some moment. -/
structure Course (κ σ : Type) where
  runner : Runner κ (Wires σ)
  work : Work
  now : Instant
  time : Timestamp
  /-- What the session has done for others, the oldest first. -/
  news : List (News κ)

/-- Something that a waiting session can turn to. -/
inductive Choice where
  /-- Frames were queued. -/
  | flush
  /-- The application ends the session. -/
  | disconnect
  /-- The oldest report. -/
  | report
  /-- The delay before the next attempt, once it is over. -/
  | delay
  /-- The requests that have waited long enough. -/
  | sweep
  deriving DecidableEq, Repr

/-- A turn of anyone. -/
inductive Turn (κ σ : Type) where
  | submit (message : ClientMessage) (caller : κ)
  | notify (message : ClientMessage)
  /-- A caller gives up. -/
  | abandon (caller : κ)
  /-- The clocks show another time. -/
  | tick (now : Instant) (time : Timestamp)
  /-- Something happens in the world. -/
  | happen (change : σ → σ)
  /-- An attempt opens a connection. -/
  | openLine (id : ConnectionId)
  /-- An attempt fails. -/
  | refuse (reason : String)
  /-- A frame arrives on a connection. -/
  | arrive (id : ConnectionId) (frame : Bytes)
  /-- A connection is closed from the other side, or was closed from this one. -/
  | hangUp (id : ConnectionId) (frame : CloseFrame)
  /-- A connection fails. -/
  | breakLine (id : ConnectionId) (reason : String)
  /-- The waiting session turns to something. -/
  | take (choice : Choice)
  /-- The busy session does the next thing. -/
  | proceed

/-- What holds before the first turn, and after each turn if it held before, holds at any time. -/
@[elab_as_elim]
theorem Turn.take_induction {motive : List (Turn κ σ) → Prop} (turns : List (Turn κ σ))
    (count : Nat) (first : motive [])
    (later : ∀ count next, turns[count]? = some next → motive (turns.take count) →
      motive (turns.take count ++ [next])) : motive (turns.take count) := by
  induction count with
  | zero => exact first
  | succ count ih =>
    rw [List.take_add_one]
    cases there : turns[count]? with
    | none =>
      rw [Option.toList_none, List.append_nil]
      exact ih
    | some next => exact later count next there ih

namespace Runner

/-- The session after it took a report, and the event that the report is for it. -/
def receive (outside : Surroundings σ) (runner : Runner κ σ) :
    TransportEvent → Runner κ σ × Option Event
  | .opened id =>
    let runner := runner.dropTransport outside
    ({ runner with connection := some id, world := outside.carrier.listen id runner.world },
      some .opened)
  | .refused reason => (runner, some (.failed reason))
  | .message id frame => (runner, if runner.isCurrent id then some (.message frame) else none)
  | .closed id frame => (runner, if runner.isCurrent id then some (.closed frame) else none)
  | .failed id reason => (runner, if runner.isCurrent id then some (.failed reason) else none)

theorem publish_runner (runner : Runner κ σ) :
    ∃ published, runner.publish.runner = { runner with published } := by
  by_cases known : runner.stranded = true ∨ runner.published = runner.lifecycle.state
  · exact ⟨runner.published, congrArg Step.runner (if_pos known)⟩
  · exact ⟨runner.lifecycle.state, congrArg Step.runner (if_neg known)⟩

end Runner

namespace Course

def start (terms : Terms σ) (now : Instant) (time : Timestamp) (rest : σ) : Course κ σ where
  runner := .start terms.settings ⟨0, [], [], [], [], rest⟩
  work := .busy [] [.connect]
  now := now
  time := time
  news := []

def core (course : Course κ σ) : Core κ := course.runner.core

/-- Where the session stands. -/
def state (course : Course κ σ) : State := course.runner.lifecycle.state

def wires (course : Course κ σ) : Wires σ := course.runner.world

/-- Whether the session waits for something to happen, and has neither ended nor broken off. -/
def Waits (course : Course κ σ) : Prop := course.work = .waiting ∧ course.runner.isOver = false

theorem waits_iff {course : Course κ σ} :
    course.Waits ↔
      course.work = .waiting ∧ course.state ≠ .closed ∧ course.runner.stranded = false := by
  simp [Waits, Runner.isOver, state]

def withCore (course : Course κ σ) (core : Core κ) : Course κ σ :=
  { course with runner := { course.runner with core } }

def withWires (course : Course κ σ) (wires : Wires σ) : Course κ σ :=
  { course with runner := { course.runner with world := wires } }

/-- An attempt ends with a report. -/
def endAttempt (course : Course κ σ) (opened : List ConnectionId) (report : TransportEvent) :
    Course κ σ :=
  let wires := course.wires
  if wires.attempts = 0 then course
  else course.withWires { wires with
    attempts := wires.attempts - 1
    opened := opened ++ wires.opened
    reports := wires.reports ++ [report] }

/-- A reader reports what it found, and may stop with it. -/
def read (course : Course κ σ) (id : ConnectionId) (last : Bool) (report : TransportEvent) :
    Course κ σ :=
  let wires := course.wires
  if id ∈ wires.readers then
    course.withWires { wires with
      readers := if last then wires.readers.filter (· ≠ id) else wires.readers
      reports := wires.reports ++ [report] }
  else course

theorem endAttempt_cases (course : Course κ σ) (opened : List ConnectionId)
    (report : TransportEvent) :
    course.endAttempt opened report = course ∨
      0 < course.wires.attempts ∧
        course.endAttempt opened report = course.withWires { course.wires with
          attempts := course.wires.attempts - 1
          opened := opened ++ course.wires.opened
          reports := course.wires.reports ++ [report] } := by
  by_cases none : course.wires.attempts = 0
  · exact Or.inl (if_pos none)
  · exact Or.inr ⟨Nat.pos_of_ne_zero none, if_neg none⟩

theorem read_cases (course : Course κ σ) (id : ConnectionId) (last : Bool)
    (report : TransportEvent) :
    course.read id last report = course ∨
      ∃ readers, course.read id last report = course.withWires { course.wires with
        readers
        reports := course.wires.reports ++ [report] } := by
  by_cases listens : id ∈ course.wires.readers
  · exact Or.inr ⟨_, if_pos listens⟩
  · exact Or.inl (if_neg listens)

/-- The waiting session turns to something, if there is anything of the kind. -/
def attend (terms : Terms σ) (course : Course κ σ) : Choice → Course κ σ
  | .flush =>
    let (runner, event) := course.runner.flush (terms.outside course.now course.time)
    { course with runner, work := .on event }
  | .disconnect => { course with work := .on (some .disconnect) }
  | .report =>
    match course.wires.reports with
    | [] => course
    | report :: reports =>
      let course := course.withWires { course.wires with reports }
      let (runner, event) := course.runner.receive (terms.outside course.now course.time) report
      { course with runner, work := .on event }
  | .delay =>
    if course.runner.reconnectAt.any fun due => due.nanos ≤ course.now.nanos then
      { course with
        runner := { course.runner with reconnectAt := none }
        work := .on (some .delayElapsed) }
    else course
  | .sweep =>
    let (core, deliveries) := course.core.sweep course.now
    { course.withCore core with news := course.news ++ deliveries.map .delivery }

/-- The busy session does the next thing: an action, else an event, else it lets others know of its
state and waits. A session that broke off does nothing. -/
def advance (terms : Terms σ) (course : Course κ σ) : Course κ σ :=
  if course.runner.stranded then course
  else
    match course.work with
    | .waiting => course
    | .busy (action :: actions) events =>
      let effect := course.runner.perform (terms.outside course.now course.time) action
      { course with
        runner := effect.runner
        work := .busy actions (events ++ effect.followUp.toList)
        news := course.news ++ effect.news }
    | .busy [] (event :: events) =>
      let (lifecycle, actions) := course.runner.lifecycle.handle event
      { course with runner := { course.runner with lifecycle }, work := .busy actions events }
    | .busy [] [] =>
      let step := course.runner.publish
      { course with runner := step.runner, work := .waiting, news := course.news ++ step.news }

/-- The course after a turn. A turn that is not possible changes nothing. -/
def turn (terms : Terms σ) [DecidableEq κ] (course : Course κ σ) : Turn κ σ → Course κ σ
  | .submit message caller =>
    course.withCore
      (course.core.submit terms.signing terms.settings course.now message caller).2
  | .notify message =>
    match course.core.notify terms.signing message with
    | .ok core => course.withCore core
    | .error _ => course
  | .abandon caller =>
    course.withCore { course.core with registry := course.core.registry.abandon caller }
  | .tick now time => { course with now, time }
  | .happen change => course.withWires { course.wires with rest := change course.wires.rest }
  | .openLine id =>
    -- No two connections have the same number.
    if id ∈ course.wires.opened then course else course.endAttempt [id] (.opened id)
  | .refuse reason => course.endAttempt [] (.refused reason)
  | .arrive id frame => course.read id false (.message id frame)
  | .hangUp id frame => course.read id true (.closed id frame)
  | .breakLine id reason => course.read id true (.failed id reason)
  | .take choice =>
    match course.work with
    | .waiting => if course.runner.isOver then course else course.attend terms choice
    | .busy _ _ => course
  | .proceed => course.advance terms

theorem advance_cases (terms : Terms σ) (course : Course κ σ) :
    course.advance terms = course ∨
      (∃ action actions events, course.work = .busy (action :: actions) events ∧
        course.runner.stranded = false ∧
        course.advance terms = { course with
          runner := (course.runner.perform (terms.outside course.now course.time) action).runner
          work := .busy actions (events ++
            (course.runner.perform (terms.outside course.now course.time) action).followUp.toList)
          news := course.news ++
            (course.runner.perform (terms.outside course.now course.time) action).news }) ∨
      (∃ event events, course.work = .busy [] (event :: events) ∧
        course.advance terms = { course with
          runner := { course.runner with lifecycle := (course.runner.lifecycle.handle event).1 }
          work := .busy (course.runner.lifecycle.handle event).2 events }) ∨
      ∃ published, course.work = .busy [] [] ∧
        course.advance terms = { course with
          runner := { course.runner with published }
          work := .waiting
          news := course.news ++ course.runner.publish.news } := by
  cases stranded : course.runner.stranded with
  | true => exact Or.inl (if_pos stranded)
  | false =>
    match work : course.work with
    | .waiting => exact Or.inl (by simp [advance, work])
    | .busy (action :: actions) events =>
      exact Or.inr (Or.inl ⟨action, actions, events, rfl, rfl, by simp [advance, stranded, work]⟩)
    | .busy [] (event :: events) =>
      exact Or.inr (Or.inr (Or.inl ⟨event, events, rfl, by simp [advance, stranded, work]⟩))
    | .busy [] [] =>
      obtain ⟨published, shown⟩ := course.runner.publish_runner
      exact Or.inr (Or.inr (Or.inr
        ⟨published, rfl, by simp [advance, stranded, work, shown]⟩))

theorem turn_take_cases (terms : Terms σ) [DecidableEq κ] (course : Course κ σ) (choice : Choice) :
    course.turn terms (.take choice) = course ∨
      course.Waits ∧ course.turn terms (.take choice) = course.attend terms choice := by
  cases idle : course.work with
  | waiting =>
    cases ends : course.runner.isOver with
    | true => exact Or.inl (by simp [turn, idle, ends])
    | false => exact Or.inr ⟨⟨idle, ends⟩, by simp [turn, idle, ends]⟩
  | busy actions events => exact Or.inl (by simp [turn, idle])

/-- Where the session itself stands is the same at two moments. -/
structure StandsStill (course later : Course κ σ) : Prop where
  work : later.work = course.work
  lifecycle : later.runner.lifecycle = course.runner.lifecycle
  connection : later.runner.connection = course.runner.connection
  news : later.news = course.news

/-- Most turns pass the session itself by. -/
theorem turn_cases (terms : Terms σ) [DecidableEq κ] (course : Course κ σ) (next : Turn κ σ) :
    course.StandsStill (course.turn terms next) ∨
      (∃ choice, next = .take choice ∧ course.Waits ∧
        course.turn terms next = course.attend terms choice) ∨
      (next = .proceed ∧ course.turn terms next = course.advance terms) := by
  have ended (opened : List ConnectionId) (report : TransportEvent) :
      course.StandsStill (course.endAttempt opened report) := by
    rcases course.endAttempt_cases opened report with same | ⟨_, ends⟩
    · rw [same]
      exact ⟨rfl, rfl, rfl, rfl⟩
    · rw [ends]
      exact ⟨rfl, rfl, rfl, rfl⟩
  have came (id : ConnectionId) (last : Bool) (report : TransportEvent) :
      course.StandsStill (course.read id last report) := by
    rcases course.read_cases id last report with same | ⟨_, reads⟩
    · rw [same]
      exact ⟨rfl, rfl, rfl, rfl⟩
    · rw [reads]
      exact ⟨rfl, rfl, rfl, rfl⟩
  cases next with
  | take choice =>
    rcases course.turn_take_cases terms choice with same | ⟨waits, attends⟩
    · rw [same]
      exact Or.inl ⟨rfl, rfl, rfl, rfl⟩
    · exact Or.inr (Or.inl ⟨choice, rfl, waits, attends⟩)
  | proceed => exact Or.inr (Or.inr ⟨rfl, rfl⟩)
  | notify message =>
    left
    simp only [turn]
    split <;> exact ⟨rfl, rfl, rfl, rfl⟩
  | openLine id =>
    left
    simp only [turn]
    split
    · exact ⟨rfl, rfl, rfl, rfl⟩
    · exact ended _ _
  | refuse reason => exact Or.inl (ended _ _)
  | arrive id frame => exact Or.inl (came id _ _)
  | hangUp id frame => exact Or.inl (came id _ _)
  | breakLine id reason => exact Or.inl (came id _ _)
  | submit message caller => exact Or.inl ⟨rfl, rfl, rfl, rfl⟩
  | abandon caller => exact Or.inl ⟨rfl, rfl, rfl, rfl⟩
  | tick now time => exact Or.inl ⟨rfl, rfl, rfl, rfl⟩
  | happen change => exact Or.inl ⟨rfl, rfl, rfl, rfl⟩

variable [DecidableEq κ] (terms : Terms σ)

def play (course : Course κ σ) (turns : List (Turn κ σ)) : Course κ σ :=
  turns.foldl (turn terms) course

theorem play_append (course : Course κ σ) (earlier later : List (Turn κ σ)) :
    course.play terms (earlier ++ later) = (course.play terms earlier).play terms later :=
  List.foldl_append

theorem play_concat (course : Course κ σ) (turns : List (Turn κ σ)) (next : Turn κ σ) :
    course.play terms (turns ++ [next]) = (course.play terms turns).turn terms next :=
  course.play_append terms turns [next]

theorem play_keeps (kept : Course κ σ → Prop)
    (keeps : ∀ course next, kept course → kept (course.turn terms next))
    (course : Course κ σ) (turns : List (Turn κ σ)) (holds : kept course) :
    kept (course.play terms turns) := by
  induction turns generalizing course with
  | nil => exact holds
  | cons next turns ih => exact ih _ (keeps course next holds)

end Course

end Tether.Session
