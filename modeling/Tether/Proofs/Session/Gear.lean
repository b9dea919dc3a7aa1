import Tether.Proofs.Session.Course

/-! A session listens to a connection from when it takes it up until it lets it go, and asks it to
close at most in between. Neither shows in what runs beside the session: a reader that was let go
may still report, and a close that was asked for leaves no mark. A record of what the carrier is
called for is therefore kept beside the course; the session knows nothing of it. -/

namespace Tether.Session

open Time (Instant Timestamp)
open Transport (ConnectionId TransportError)

variable {κ σ : Type}

/-- What a session has asked of connections. -/
structure Gear where
  /-- The connections that it listens to and has not let go. -/
  readers : List ConnectionId
  /-- The connections that it has asked to close. -/
  closing : List ConnectionId
  deriving DecidableEq, Repr

namespace Gear

def empty : Gear := ⟨[], []⟩

def takeUp (gear : Gear) (id : ConnectionId) : Gear := { gear with readers := id :: gear.readers }

/-- The session lets go of its connection, if it has one. -/
def letGo (gear : Gear) : Option ConnectionId → Gear
  | none => gear
  | some id => { gear with readers := gear.readers.filter (· ≠ id) }

/-- The session asks its connection to close, if it has one. -/
def askToClose (gear : Gear) : Option ConnectionId → Gear
  | none => gear
  | some id => { gear with closing := id :: gear.closing }

/-- The record after an action of a session with a connection or without. -/
def after (gear : Gear) (held : Option ConnectionId) : Action → Gear
  | .closeTransport _ _ => gear.askToClose held
  | .dropTransport => gear.letGo held
  | _ => gear

/-- The record after a report to a session with a connection or without. -/
def hear (gear : Gear) (held : Option ConnectionId) : TransportEvent → Gear
  | .opened id => (gear.letGo held).takeUp id
  | _ => gear

end Gear

/-- A carrier that keeps a record of what it is asked for. -/
def Carrier.recorded (carrier : Carrier σ) : Carrier (σ × Gear) where
  dial world := (carrier.dial world.1, world.2)
  listen id world := (carrier.listen id world.1, world.2.takeUp id)
  send id frame world :=
    let (failure, next) := carrier.send id frame world.1
    (failure, next, world.2)
  close id code reason world :=
    let (failure, next) := carrier.close id code reason world.1
    (failure, next, world.2.askToClose (some id))
  letGo id world := (carrier.letGo id world.1, world.2.letGo (some id))

def Surroundings.recorded (outside : Surroundings σ) : Surroundings (σ × Gear) :=
  ⟨outside.carrier.recorded, outside.signing, outside.now, outside.time⟩

def Runner.beside (runner : Runner κ σ) (gear : Gear) : Runner κ (σ × Gear) where
  core := runner.core
  lifecycle := runner.lifecycle
  connection := runner.connection
  reconnectAt := runner.reconnectAt
  published := runner.published
  stranded := runner.stranded
  world := (runner.world, gear)

namespace Outbox

theorem sendFrames_lift {α β : Type} (lift : α → β)
    (send : Bytes → α → Option TransportError × α) (note : QueuedFrame → α → α)
    (sendBeside : Bytes → β → Option TransportError × β) (noteBeside : QueuedFrame → β → β)
    (sends : ∀ frame world,
      sendBeside frame (lift world) = ((send frame world).1, lift (send frame world).2))
    (notes : ∀ frame world, noteBeside frame (lift world) = lift (note frame world))
    (frames : List QueuedFrame) (world : α) :
    sendFrames sendBeside noteBeside frames (lift world) =
      ((sendFrames send note frames world).1, (sendFrames send note frames world).2.1,
        lift (sendFrames send note frames world).2.2) := by
  induction frames generalizing world with
  | nil => rfl
  | cons frame frames ih =>
    rcases sent : send frame.bytes world with ⟨_ | failure, next⟩
    · have onward := ih (note frame next)
      simp only [sendFrames, sends, sent, notes, onward]
    · simp only [sendFrames, sends, sent]

end Outbox

theorem Core.flush_recorded (core : Core κ) (carrier : Carrier σ) (id : ConnectionId)
    (time : Timestamp) (world : σ) (gear : Gear) :
    core.flush (carrier.recorded.send id) time (world, gear) =
      ((core.flush (carrier.send id) time world).1, (core.flush (carrier.send id) time world).2.1,
        (core.flush (carrier.send id) time world).2.2, gear) := by
  have same := Outbox.sendFrames_lift (fun state : Registry κ × σ => (state.1, state.2, gear))
    (fun bytes state =>
      ((carrier.send id bytes state.2).1, state.1, (carrier.send id bytes state.2).2))
    (fun frame state => (state.1.markSent frame.id time, state.2))
    (fun bytes state =>
      ((carrier.recorded.send id bytes state.2).1, state.1,
        (carrier.recorded.send id bytes state.2).2))
    (fun frame state => (state.1.markSent frame.id time, state.2))
    (fun _ _ => rfl) (fun _ _ => rfl) core.outbox.frames (core.registry, world)
  simp only [flush, Outbox.flush, same]

namespace Runner

variable (outside : Surroundings σ) (runner : Runner κ σ) (gear : Gear)

theorem flush_beside :
    (runner.beside gear).flush outside.recorded =
      ((runner.flush outside).1.beside gear, (runner.flush outside).2) := by
  cases state : runner.lifecycle.state with
  | connected =>
    cases current : runner.connection with
    | some id =>
      simp only [flush, beside, state, current, Surroundings.recorded, Core.flush_recorded]
    | none => simp only [flush, beside, state, current]
  | _ => simp only [flush, beside, state]

theorem dropTransport_beside :
    (runner.beside gear).dropTransport outside.recorded =
      (runner.dropTransport outside).beside (gear.letGo runner.connection) := by
  cases current : runner.connection <;>
    simp [dropTransport, beside, current, Gear.letGo, Surroundings.recorded, Carrier.recorded]

/-- A session keeps up its record with every action, and does what it does without. -/
theorem perform_beside (action : Action) :
    (runner.beside gear).perform outside.recorded action =
      { runner := (runner.perform outside action).runner.beside
          (gear.after runner.connection action)
        news := (runner.perform outside action).news
        followUp := (runner.perform outside action).followUp } := by
  cases action with
  | openTransport => rfl
  | flushQueue => simp only [perform, flush_beside, Gear.after]
  | requeueUnanswered => rfl
  | scheduleReconnect delay =>
    simp only [perform, Surroundings.recorded]
    split <;> rfl
  | cancelReconnect => rfl
  | closeTransport code reason =>
    cases current : runner.connection <;>
      simp [perform, close, beside, current, Gear.after, Gear.askToClose, Surroundings.recorded,
        Carrier.recorded]
  | dropTransport => simp only [perform, dropTransport_beside, Gear.after]
  | dispatch frame => rfl
  | failPending => rfl

theorem receive_beside (report : TransportEvent) :
    (runner.beside gear).receive outside.recorded report =
      ((runner.receive outside report).1.beside (gear.hear runner.connection report),
        (runner.receive outside report).2) := by
  cases report with
  | opened id =>
    simp only [receive, dropTransport_beside]
    rfl
  | _ => rfl

end Runner

/-- A course with the record of what the session asked of connections. -/
structure Rig (κ σ : Type) where
  course : Course κ σ
  gear : Gear

/-- The record after a turn, which the session takes with its record beside it. -/
def Course.gearAfter (terms : Terms σ) (course : Course κ σ) (gear : Gear) : Turn κ σ → Gear
  | .take choice =>
    match course.work, course.runner.isOver, choice, course.wires.reports with
    | .waiting, false, .flush, _ =>
      ((course.runner.beside gear).flush
        (terms.outside course.now course.time).recorded).1.world.2
    | .waiting, false, .report, report :: _ =>
      ((course.runner.beside gear).receive
        (terms.outside course.now course.time).recorded report).1.world.2
    | _, _, _, _ => gear
  | .proceed =>
    match course.runner.stranded, course.work with
    | false, .busy (action :: _) _ =>
      ((course.runner.beside gear).perform
        (terms.outside course.now course.time).recorded action).runner.world.2
    | _, _ => gear
  | _ => gear

namespace Course

variable (terms : Terms σ) {course : Course κ σ} (gear : Gear)

theorem gearAfter_report {report : TransportEvent} {reports : List TransportEvent}
    (waits : course.Waits) (queued : course.wires.reports = report :: reports) :
    course.gearAfter terms gear (.take .report) = gear.hear course.runner.connection report := by
  simp only [gearAfter, waits.1, waits.2, queued, Runner.receive_beside]
  rfl

theorem gearAfter_action {action : Action} {actions : List Action} {events : List Event}
    (work : course.work = .busy (action :: actions) events)
    (going : course.runner.stranded = false) :
    course.gearAfter terms gear .proceed = gear.after course.runner.connection action := by
  simp only [gearAfter, work, going, Runner.perform_beside]
  rfl

/-- Nothing but reports that are taken and actions that are carried out changes the record. -/
theorem gearAfter_take (choice : Choice)
    (other : course.Waits → choice = .report → course.wires.reports = []) :
    course.gearAfter terms gear (.take choice) = gear := by
  simp only [gearAfter]
  split
  · rw [Runner.flush_beside]
    rfl
  · rename_i work going queued
    rw [other ⟨work, going⟩ rfl] at queued
    cases queued
  · rfl

theorem gearAfter_proceed (idle : course.runner.stranded = false → course.work.actions = []) :
    course.gearAfter terms gear .proceed = gear := by
  simp only [gearAfter]
  split
  · rename_i going work
    have none := idle going
    rw [work] at none
    cases none
  · rfl

end Course

namespace Rig

variable (terms : Terms σ)

def start (now : Instant) (time : Timestamp) (rest : σ) : Rig κ σ :=
  ⟨.start terms now time rest, .empty⟩

variable [DecidableEq κ]

def turn (rig : Rig κ σ) (next : Turn κ σ) : Rig κ σ :=
  ⟨rig.course.turn terms next, rig.course.gearAfter terms rig.gear next⟩

def play (rig : Rig κ σ) (turns : List (Turn κ σ)) : Rig κ σ := turns.foldl (turn terms) rig

@[simp] theorem course_play (rig : Rig κ σ) (turns : List (Turn κ σ)) :
    (rig.play terms turns).course = rig.course.play terms turns := by
  induction turns generalizing rig with
  | nil => rfl
  | cons next turns ih => exact ih _

theorem play_keeps (kept : Rig κ σ → Prop)
    (keeps : ∀ rig next, kept rig → kept (rig.turn terms next)) (rig : Rig κ σ)
    (turns : List (Turn κ σ)) (holds : kept rig) : kept (rig.play terms turns) := by
  induction turns generalizing rig with
  | nil => exact holds
  | cons next turns ih => exact ih _ (keeps rig next holds)

end Rig

end Tether.Session
