import Tether.Proofs.Session.Gear
import Tether.Proofs.Session.Phase

/-! Whenever a session waits, something is on its way that will wake it: the delay before its next
attempt, the result of the one attempt it has made, or whatever its one connection brings next, the
end of that connection included. -/

namespace Tether.Session

open Time (Instant Timestamp)
open Transport (ConnectionId)

variable {κ σ : Type}

/-- Whether a report is the last one of a connection. -/
def TransportEvent.ends (id : ConnectionId) : TransportEvent → Bool
  | .closed other _ => other = id
  | .failed other _ => other = id
  | _ => false

/-- Whether the end of a connection is still to be learned: its reader runs, or has reported it. -/
def Wires.Brings (wires : Wires σ) (id : ConnectionId) : Prop :=
  id ∈ wires.readers ∨ ∃ report ∈ wires.reports, report.ends id

namespace Wires

variable (wires : Wires σ)

theorem brings_result {opened : List ConnectionId} {report : TransportEvent}
    (result : report.isResult) (id : ConnectionId) :
    Brings { wires with
        attempts := wires.attempts - 1
        opened := opened ++ wires.opened
        reports := wires.reports ++ [report] } id ↔ wires.Brings id := by
  have noEnd : report.ends id = false := by
    cases report <;> first | rfl | cases result
  simp [Brings, or_and_right, exists_or, noEnd]

theorem brings_read {id : ConnectionId} {last : Bool} {report : TransportEvent}
    (listens : id ∈ wires.readers)
    (ends : ∀ other, report.ends other = (last && decide (id = other))) (other : ConnectionId) :
    Brings { wires with
        readers := if last then wires.readers.filter (· ≠ id) else wires.readers
        reports := wires.reports ++ [report] } other ↔ wires.Brings other := by
  cases last with
  | false => simp [Brings, or_and_right, exists_or, ends]
  | true =>
    by_cases same : id = other
    · subst same
      simp [Brings, listens, ends, or_and_right, exists_or]
    · simp [Brings, ends, same, Ne.symm same, or_and_right, exists_or]

end Wires

/-- What a session has at hand. -/
@[ext]
structure Stock where
  /-- The connection in use. -/
  line : Option ConnectionId
  /-- How many attempts are under way, or over without the session knowing. -/
  attempts : Nat
  /-- Whether the delay before the next attempt runs. -/
  delay : Prop
  /-- Whether the connection in use was asked to close. -/
  asked : Prop
  /-- Whether the end of the connection in use is still to be learned. -/
  heard : Prop

namespace Stock

/-- What a session will have when some actions are done. -/
def plan (stock : Stock) (actions : List Action) : Stock where
  line := if .dropTransport ∈ actions then none else stock.line
  attempts := actions.count .openTransport + stock.attempts
  delay := (∃ delay, .scheduleReconnect delay ∈ actions) ∨
    stock.delay ∧ .cancelReconnect ∉ actions
  asked := .dropTransport ∉ actions ∧
    (stock.asked ∨ stock.line ≠ none ∧ ∃ code reason, .closeTransport code reason ∈ actions)
  heard := .dropTransport ∉ actions ∧ stock.heard

@[simp] theorem plan_nil (stock : Stock) : stock.plan [] = stock := by
  simp [plan]

end Stock

/-- What a session has when it waits. -/
def State.Suits (stock : Stock) : State → Prop
  | .disconnected => stock.line = none ∧ stock.attempts = 0 ∧ stock.delay
  | .connecting => stock.line = none ∧ stock.attempts = 1 ∧ ¬stock.delay
  | .connected => stock.line ≠ none ∧ stock.heard ∧ stock.attempts = 0 ∧ ¬stock.delay
  | .closing =>
    stock.line = none ∧ stock.attempts = 1 ∨
      stock.line ≠ none ∧ stock.asked ∧ stock.heard ∧ stock.attempts = 0
  | .closed => True

/-- What a session has when an event is about to be handled. The delay that is over, or the result
or report that the event is about, counts as taken. -/
def State.Awaits (stock : Stock) : Event → State → Prop
  | .connect, .disconnected => stock.line = none ∧ stock.attempts = 0 ∧ ¬stock.delay
  | .delayElapsed, .disconnected => stock.line = none ∧ stock.attempts = 0 ∧ ¬stock.delay
  | .opened, .connecting => stock.line ≠ none ∧ stock.heard ∧ stock.attempts = 0 ∧ ¬stock.delay
  | .opened, .closing => stock.line ≠ none ∧ stock.heard ∧ stock.attempts = 0
  | .failed _, .connecting => stock.attempts = 0
  | .closed _, .connecting => stock.attempts = 0
  | .failed _, .connected => stock.attempts = 0
  | .closed _, .connected => stock.attempts = 0
  | .failed _, .closing => True
  | .closed _, .closing => True
  | _, state => state.Suits stock

namespace State

variable {stock : Stock} {state : State}

theorem Suits.awaits_delayElapsed (suits : state.Suits stock) (armed : stock.delay) :
    state.Awaits { stock with delay := (none : Option Instant).isSome } .delayElapsed := by
  cases state with
  | disconnected => exact ⟨suits.1, suits.2.1, by simp⟩
  | connecting => exact absurd armed suits.2.2
  | connected => exact absurd armed suits.2.2.2
  | closing => exact suits
  | closed => trivial

variable {next : Stock}

theorem Suits.awaits_opened (suits : state.Suits stock)
    (dialed : stock.attempts = next.attempts + 1) (line : next.line ≠ none) (heard : next.heard)
    (delay : next.delay = stock.delay) : state.Awaits next .opened := by
  cases state with
  | disconnected => exact absurd (dialed.symm.trans suits.2.1) (Nat.succ_ne_zero _)
  | connecting =>
    refine ⟨line, heard, Nat.succ.inj (dialed.symm.trans suits.2.1), ?_⟩
    rw [delay]
    exact suits.2.2
  | connected => exact absurd (dialed.symm.trans suits.2.2.1) (Nat.succ_ne_zero _)
  | closing =>
    rcases suits with ⟨_, one⟩ | ⟨_, _, _, zero⟩
    · exact ⟨line, heard, Nat.succ.inj (dialed.symm.trans one)⟩
    · exact absurd (dialed.symm.trans zero) (Nat.succ_ne_zero _)
  | closed => trivial

theorem Suits.awaits_refused (suits : state.Suits stock)
    (dialed : stock.attempts = next.attempts + 1) (reason : String) :
    state.Awaits next (.failed reason) := by
  cases state with
  | disconnected => exact absurd (dialed.symm.trans suits.2.1) (Nat.succ_ne_zero _)
  | connecting => exact Nat.succ.inj (dialed.symm.trans suits.2.1)
  | connected => exact absurd (dialed.symm.trans suits.2.2.1) (Nat.succ_ne_zero _)
  | closing => trivial
  | closed => trivial

/-- Only a session with a connection learns of its end. -/
theorem Suits.awaits_end (suits : state.Suits stock) (line : stock.line ≠ none)
    (same : next.attempts = stock.attempts) {event : Event}
    (loss : (∃ reason, event = .failed reason) ∨ ∃ frame, event = .closed frame) :
    state.Awaits next event := by
  have idle : state = .connected → next.attempts = 0 := by
    rintro rfl
    rw [same]
    exact suits.2.2.1
  rcases loss with ⟨reason, rfl⟩ | ⟨frame, rfl⟩
  · cases state with
    | disconnected => exact absurd suits.1 line
    | connecting => exact absurd suits.1 line
    | connected => exact idle rfl
    | closing => trivial
    | closed => trivial
  · cases state with
    | disconnected => exact absurd suits.1 line
    | connecting => exact absurd suits.1 line
    | connected => exact idle rfl
    | closing => trivial
    | closed => trivial

/-- A session that is connected or ends may learn of a failure or a close at any time. -/
theorem Suits.awaits_loss (suits : state.Suits stock) {event : Event}
    (loss : (∃ reason, event = .failed reason) ∨ ∃ frame, event = .closed frame)
    (stands : state = .connected ∨ state = .closing) : state.Awaits stock event := by
  rcases stands with rfl | rfl
  · have idle : stock.attempts = 0 := suits.2.2.1
    rcases loss with ⟨reason, rfl⟩ | ⟨frame, rfl⟩
    · exact idle
    · exact idle
  · rcases loss with ⟨reason, rfl⟩ | ⟨frame, rfl⟩ <;> trivial

end State

namespace Lifecycle

theorem scheduleReconnect_mem_onLoss (machine : Lifecycle) :
    .scheduleReconnect machine.delay ∈ machine.onLoss :=
  List.mem_append_right _ List.mem_cons_self

theorem suits_loss (machine : Lifecycle) {stock : Stock} (idle : stock.attempts = 0) :
    State.disconnected.Suits (stock.plan machine.onLoss) := by
  refine ⟨by simp [Stock.plan], by simp [Stock.plan, idle], ?_⟩
  exact Or.inl ⟨_, machine.scheduleReconnect_mem_onLoss⟩

/-- An event that is handled leaves a session with what it will have to wait for. -/
theorem suits_handle (machine : Lifecycle) (event : Event) (stock : Stock)
    (awaits : machine.state.Awaits stock event) :
    (machine.handle event).1.state.Suits (stock.plan (machine.handle event).2) := by
  obtain ⟨state, backoff, resend, failures⟩ := machine
  cases state with
  | disconnected => cases event <;> simp_all [handle, State.Awaits, State.Suits, Stock.plan]
  | connecting =>
    cases event <;> simp_all [handle, State.Awaits, State.Suits, Stock.plan, failing]
  | connected =>
    cases event with
    | closed frame =>
      simp only [handle]
      split
      · trivial
      · exact suits_loss _ awaits
    | failed reason => exact suits_loss _ awaits
    | _ => simp_all [handle, State.Awaits, State.Suits, Stock.plan, closeForGood]
  | closing =>
    cases event <;> simp_all [handle, State.Awaits, State.Suits, Stock.plan, closeForGood]
  | closed => cases event <;> simp [handle, State.Suits]

/-- No event starts a delay and stops one. -/
theorem delays_handle (machine : Lifecycle) (event : Event) {delay : Time.Interval}
    (scheduled : .scheduleReconnect delay ∈ (machine.handle event).2) :
    .cancelReconnect ∉ (machine.handle event).2 := by
  have loss : .cancelReconnect ∉ machine.onLoss := by
    unfold onLoss
    cases machine.resend <;> simp
  unfold handle at scheduled ⊢
  split
  case h_9 =>
    split
    · simp
    · exact loss
  case h_10 => exact loss
  all_goals simp_all [closeForGood]

end Lifecycle

namespace Runner

variable (terms : Terms σ) (now : Instant) (time : Timestamp) (runner : Runner κ (Wires σ))

/-- Unless the session breaks off with it, the delay runs after an action if it ran before or was
asked for. -/
theorem perform_equips (action : Action)
    (going : (runner.perform (terms.outside now time) action).runner.stranded = false) :
    runner.stranded = false ∧
      ((runner.perform (terms.outside now time) action).runner.reconnectAt.isSome ↔
        (∃ delay, .scheduleReconnect delay = action) ∨
          runner.reconnectAt.isSome ∧ .cancelReconnect ≠ action) := by
  revert going
  cases action with
  | flushQueue =>
    simp only [perform]
    rcases Runner.flush_cases terms now time runner with
      ⟨same, _⟩ | ⟨line, count, rest, failure, _, _, _, flushed, _⟩
    · rw [same]
      simp
    · rw [flushed]
      simp
  | scheduleReconnect delay =>
    simp only [perform]
    split <;> simp
  | closeTransport code reason =>
    simp only [perform, close]
    split <;> simp
  | dropTransport =>
    simp only [perform, dropTransport]
    split <;> simp
  | openTransport => simp [perform]
  | requeueUnanswered => simp [perform]
  | cancelReconnect => simp [perform]
  | dispatch frame => simp [perform]
  | failPending => simp [perform]

/-- What a session has now. -/
def stock (gear : Gear) : Stock where
  line := runner.connection
  attempts := runner.world.attempts + runner.world.reports.countP TransportEvent.isResult
  delay := runner.reconnectAt.isSome
  asked := ∃ id, runner.connection = some id ∧ id ∈ gear.closing
  heard := ∃ id, runner.connection = some id ∧ runner.world.Brings id

theorem stock_congr {runner next : Runner κ (Wires σ)} {gear : Gear}
    (connection : next.connection = runner.connection)
    (attempts : next.world.attempts + next.world.reports.countP TransportEvent.isResult =
      runner.world.attempts + runner.world.reports.countP TransportEvent.isResult)
    (delay : next.reconnectAt = runner.reconnectAt)
    (brings : ∀ id, next.world.Brings id ↔ runner.world.Brings id) :
    next.stock gear = runner.stock gear := by
  simp only [stock, connection, attempts, delay, brings]

theorem stock_pop {runner : Runner κ (Wires σ)} {report : TransportEvent}
    {reports : List TransportEvent} (queued : runner.world.reports = report :: reports)
    (gear : Gear) (noResult : report.isResult = false)
    (noEnd : ∀ id, runner.connection = some id → report.ends id = false) :
    Runner.stock { runner with world := { runner.world with reports } } gear =
      runner.stock gear := by
  apply Stock.ext
  · rfl
  · simp [stock, queued, noResult]
  · rfl
  · rfl
  · simp only [stock, Wires.Brings, queued]
    apply propext
    apply exists_congr
    intro id
    apply and_congr_right
    intro current
    simp [noEnd id current]

theorem receive_opened (id : ConnectionId) :
    runner.receive (terms.outside now time) (.opened id) =
      ({ runner with
        connection := some id
        world := { runner.world with readers := id :: runner.world.readers } }, some .opened) := by
  unfold receive dropTransport
  cases runner.connection <;> rfl

end Runner

theorem Gear.readers_letGo {gear : Gear} {held : Option ConnectionId}
    (inHand : gear.readers = held.toList) : (gear.letGo held).readers = [] := by
  cases held with
  | none => exact inHand
  | some id => simp [letGo, inHand]

theorem Gear.readers_after {gear : Gear} {held : Option ConnectionId}
    (inHand : gear.readers = held.toList) (action : Action) :
    (gear.after held action).readers =
      (if action = .dropTransport then none else held).toList := by
  cases action with
  | dropTransport => exact readers_letGo inHand
  | closeTransport code reason =>
    rw [if_neg (by simp), ← inHand]
    cases held <;> rfl
  | _ => exact inHand

namespace Course

variable (terms : Terms σ) [DecidableEq κ] {course : Course κ σ} {choice : Choice}

theorem turn_take_of_waits (waits : course.Waits) :
    course.turn terms (.take choice) = course.attend terms choice := by
  simp [turn, waits.1, waits.2]

theorem turn_take_of_not_waits (busy : ¬course.Waits) :
    course.turn terms (.take choice) = course := by
  cases idle : course.work with
  | waiting =>
    cases ends : course.runner.isOver with
    | true => simp [turn, idle, ends]
    | false => exact absurd ⟨idle, ends⟩ busy
  | busy actions events => simp [turn, idle]

end Course

namespace Rig

/-- What the session has now. -/
def base (rig : Rig κ σ) : Stock := rig.course.runner.stock rig.gear

/-- What the session will have when the actions that are left are done. -/
def stock (rig : Rig κ σ) : Stock := rig.base.plan rig.course.work.actions

/-- The session has what it will have to wait for, and is at what some event asked for. -/
structure Ready (rig : Rig κ σ) : Prop where
  inHand : rig.gear.readers = rig.course.runner.connection.toList
  suits : rig.course.runner.stranded = false → rig.course.work.events = [] →
    rig.course.state.Suits rig.stock
  awaits : rig.course.runner.stranded = false → ∀ event ∈ rig.course.work.events,
    rig.course.state.Awaits rig.stock event
  delays : ∀ delay, .scheduleReconnect delay ∈ rig.course.work.actions →
    .cancelReconnect ∉ rig.course.work.actions

theorem ready_start (terms : Terms σ) (now : Instant) (time : Timestamp) (rest : σ) :
    (start terms now time rest : Rig κ σ).Ready where
  inHand := rfl
  suits _ waits := nomatch waits
  awaits _ event member := by
    rw [List.mem_singleton.mp member]
    simp [stock, base, Runner.stock, start, Course.start, Course.state, Runner.start,
      Lifecycle.start, State.Awaits, Work.actions]
  delays _ member := nomatch member

theorem Ready.congr {rig next : Rig κ σ} (ready : rig.Ready)
    (work : next.course.work = rig.course.work)
    (lifecycle : next.course.runner.lifecycle = rig.course.runner.lifecycle)
    (stranded : next.course.runner.stranded = rig.course.runner.stranded)
    (gear : next.gear.readers = rig.gear.readers) (base : next.base = rig.base) : next.Ready := by
  have state : next.course.state = rig.course.state := congrArg Lifecycle.state lifecycle
  have stock : next.stock = rig.stock := by rw [Rig.stock, Rig.stock, base, work]
  have line : next.course.runner.connection = rig.course.runner.connection :=
    congrArg Stock.line base
  refine ⟨?_, ?_, ?_, ?_⟩
  · rw [gear, line]
    exact ready.inHand
  · rw [stranded, work, state, stock]
    exact ready.suits
  · rw [stranded, work, state, stock]
    exact ready.awaits
  · rw [work]
    exact ready.delays

/-- A session that turns to an event is ready if it has what the event needs. -/
theorem ready_on {rig : Rig κ σ} (event : Option Event) (work : rig.course.work = .on event)
    (inHand : rig.gear.readers = rig.course.runner.connection.toList)
    (suits : event = none → rig.course.state.Suits rig.base)
    (awaits : ∀ next, event = some next → rig.course.state.Awaits rig.base next) :
    rig.Ready := by
  have idle : rig.course.work.actions = [] := by rw [work, Work.actions_on]
  have stock : rig.stock = rig.base := by rw [Rig.stock, idle, Stock.plan_nil]
  refine ⟨inHand, ?_, ?_, ?_⟩
  · intro _ done
    rw [stock]
    apply suits
    cases event with
    | none => rfl
    | some event =>
      rw [work] at done
      cases done
  · intro _ next member
    rw [stock]
    apply awaits
    rw [work] at member
    cases event with
    | none => cases member
    | some event => rw [List.mem_singleton.mp member]
  · intro delay member
    rw [idle] at member
    cases member

/-- A session that waits has what it should have, and nothing else is on its way. -/
theorem Ready.suits_of_waiting {rig : Rig κ σ} (ready : rig.Ready) (waits : rig.course.Waits) :
    rig.course.state.Suits rig.base := by
  have going : rig.course.runner.stranded = false := (Course.waits_iff.mp waits).2.2
  have suits := ready.suits going (by rw [waits.1]; rfl)
  rwa [stock, waits.1, Work.actions, Stock.plan_nil] at suits

theorem Ready.passOver {rig : Rig κ σ} (ready : rig.Ready) (waits : rig.course.Waits)
    {report : TransportEvent} {reports : List TransportEvent}
    (queued : rig.course.wires.reports = report :: reports) (noResult : report.isResult = false)
    (noEnd : ∀ id, rig.course.runner.connection = some id → report.ends id = false)
    (event : Option Event)
    (awaits : ∀ next, event = some next → rig.course.state.Awaits rig.base next) :
    Ready ⟨{ rig.course.withWires { rig.course.wires with reports } with work := .on event },
      rig.gear⟩ := by
  have same := Runner.stock_pop queued rig.gear noResult noEnd
  refine ready_on event rfl ready.inHand ?_ ?_
  · intro _
    exact (congrArg (State.Suits · rig.course.state) same).mpr (ready.suits_of_waiting waits)
  · intro next follows
    exact (congrArg (State.Awaits · next rig.course.state) same).mpr (awaits next follows)

/-- The end of the connection in use is an event, that of another is passed over. -/
theorem Ready.ending {rig : Rig κ σ} (ready : rig.Ready) (waits : rig.course.Waits)
    {report : TransportEvent} {reports : List TransportEvent}
    (queued : rig.course.wires.reports = report :: reports) (noResult : report.isResult = false)
    {id : ConnectionId} (of : ∀ other, report.ends other = true → other = id) {event : Event}
    (loss : (∃ reason, event = .failed reason) ∨ ∃ frame, event = .closed frame) :
    Ready ⟨{ rig.course.withWires { rig.course.wires with reports } with
        work := .on (if rig.course.runner.isCurrent id then some event else none) },
      rig.gear⟩ := by
  by_cases current : rig.course.runner.isCurrent id
  · have line : rig.course.runner.connection = some id := by simpa [Runner.isCurrent] using current
    rw [if_pos current]
    refine ready_on (some event) rfl ready.inHand (by simp) ?_
    rintro next ⟨⟩
    apply (ready.suits_of_waiting waits).awaits_end _ _ loss
    · change rig.course.runner.connection ≠ none
      rw [line]
      exact Option.some_ne_none id
    · change _ + reports.countP _ = _ + rig.course.wires.reports.countP _
      rw [queued, List.countP_cons_of_neg (by simp [noResult])]
      rfl
  · rw [if_neg current]
    apply ready.passOver waits queued noResult _ none (by simp)
    intro other line
    apply Bool.eq_false_iff.mpr
    intro ends
    apply current
    rw [of other ends] at line
    simp [Runner.isCurrent, line]

theorem Ready.report (terms : Terms σ) {rig : Rig κ σ} (ready : rig.Ready)
    (waits : rig.course.Waits) {report : TransportEvent} {reports : List TransportEvent}
    (queued : rig.course.wires.reports = report :: reports) :
    Ready ⟨{ rig.course.withWires { rig.course.wires with reports } with
        runner := ((rig.course.withWires { rig.course.wires with reports }).runner.receive
          (terms.outside rig.course.now rig.course.time) report).1
        work := .on ((rig.course.withWires { rig.course.wires with reports }).runner.receive
          (terms.outside rig.course.now rig.course.time) report).2 },
      rig.gear.hear rig.course.runner.connection report⟩ := by
  have suits := ready.suits_of_waiting waits
  cases report with
  | opened id =>
    rw [Runner.receive_opened]
    refine ready_on (some .opened) rfl ?_ (by simp) ?_
    · change id :: (rig.gear.letGo _).readers = [id]
      rw [Gear.readers_letGo ready.inHand]
    · rintro next ⟨⟩
      apply suits.awaits_opened
      · change _ + rig.course.wires.reports.countP _ = _ + reports.countP _ + 1
        rw [queued, List.countP_cons_of_pos rfl, Nat.add_assoc]
        rfl
      · exact Option.some_ne_none id
      · exact ⟨id, rfl, Or.inl List.mem_cons_self⟩
      · rfl
  | refused reason =>
    refine ready_on (some (.failed reason)) rfl ready.inHand (by simp) ?_
    rintro next ⟨⟩
    apply suits.awaits_refused
    change _ + rig.course.wires.reports.countP _ = _ + reports.countP _ + 1
    rw [queued, List.countP_cons_of_pos rfl, Nat.add_assoc]
    rfl
  | message id frame =>
    apply ready.passOver waits queued rfl fun _ _ => rfl
    intro next follows
    change (if rig.course.runner.isCurrent id then some (Event.message frame) else none) = _
      at follows
    split at follows
    · cases follows
      cases state : rig.course.state <;> (rw [state] at suits; exact suits)
    · cases follows
  | closed id frame =>
    exact ready.ending waits queued rfl (by simp [TransportEvent.ends]) (Or.inr ⟨frame, rfl⟩)
  | failed id reason =>
    exact ready.ending waits queued rfl (by simp [TransportEvent.ends]) (Or.inl ⟨reason, rfl⟩)

/-- A flush may fail only where a failure may come up. -/
private theorem Ready.flush (terms : Terms σ) {rig : Rig κ σ} (ready : rig.Ready)
    (waits : rig.course.Waits) : Ready ⟨rig.course.attend terms .flush, rig.gear⟩ := by
  have suits := ready.suits_of_waiting waits
  simp only [Course.attend]
  rcases Runner.flush_cases terms rig.course.now rig.course.time rig.course.runner with
    ⟨same, _⟩ | ⟨line, count, rest, failure, connected, _, _, flushed, _⟩
  · rw [same]
    exact ready_on none rfl ready.inHand (fun _ => suits) (by simp)
  · rw [flushed]
    refine ready_on _ rfl ready.inHand (fun _ => suits) ?_
    intro next follows
    obtain ⟨reason, _, rfl⟩ := Option.map_eq_some_iff.mp follows
    exact suits.awaits_loss (Or.inl ⟨_, rfl⟩) (Or.inl connected)

private theorem Ready.elapse (terms : Terms σ) {rig : Rig κ σ} (ready : rig.Ready)
    (waits : rig.course.Waits) : Ready ⟨rig.course.attend terms .delay, rig.gear⟩ := by
  have suits := ready.suits_of_waiting waits
  simp only [Course.attend]
  split
  · rename_i elapsed
    refine ready_on (some .delayElapsed) rfl ready.inHand (by simp) ?_
    intro next same
    cases same
    have armed : rig.base.delay := by
      change rig.course.runner.reconnectAt.isSome = true
      cases due : rig.course.runner.reconnectAt with
      | none => simp [due] at elapsed
      | some instant => rfl
    exact suits.awaits_delayElapsed armed
  · exact ready

/-- A session that waits stays ready, whatever it turns to. -/
theorem Ready.attend [DecidableEq κ] (terms : Terms σ) {rig : Rig κ σ} (ready : rig.Ready)
    (waits : rig.course.Waits) (choice : Choice) :
    (Rig.mk (rig.course.attend terms choice)
      (rig.course.gearAfter terms rig.gear (.take choice))).Ready := by
  have suits := ready.suits_of_waiting waits
  have kept (other : choice ≠ .report) :
      rig.course.gearAfter terms rig.gear (.take choice) = rig.gear :=
    Course.gearAfter_take terms rig.gear choice fun _ report => absurd report other
  cases choice with
  | flush =>
    rw [kept (by simp)]
    exact ready.flush terms waits
  | disconnect =>
    rw [kept (by simp)]
    refine ready_on (some .disconnect) rfl ready.inHand (by simp) ?_
    intro next same
    cases same
    change rig.course.state.Awaits rig.base _
    cases state : rig.course.state <;> (rw [state] at suits; exact suits)
  | report =>
    cases queued : rig.course.wires.reports with
    | nil =>
      rw [Course.gearAfter_take terms rig.gear .report fun _ _ => queued]
      simpa only [Course.attend, queued] using ready
    | cons report reports =>
      rw [Course.gearAfter_report terms rig.gear waits queued]
      simp only [Course.attend, queued]
      exact ready.report terms waits queued
  | delay =>
    rw [kept (by simp)]
    exact ready.elapse terms waits
  | sweep =>
    rw [kept (by simp)]
    exact ready.congr rfl rfl rfl rfl rfl

/-- An action gives the session what it was counted as having. -/
theorem stock_perform (terms : Terms σ) (now : Instant) (time : Timestamp)
    (runner : Runner κ (Wires σ)) (gear : Gear) {action : Action} {actions : List Action}
    (dropsFirst : .dropTransport ∉ actions)
    (delays : ∀ delay, .scheduleReconnect delay ∈ action :: actions →
      .cancelReconnect ∉ action :: actions)
    (going : (runner.perform (terms.outside now time) action).runner.stranded = false) :
    ((runner.perform (terms.outside now time) action).runner.stock
        (gear.after runner.connection action)).plan actions =
      (runner.stock gear).plan (action :: actions) := by
  obtain ⟨_, connection, attempts, reports, _, readers⟩ :=
    Runner.perform_leaves terms now time runner action
  obtain ⟨_, delay⟩ := Runner.perform_equips terms now time runner action going
  generalize (runner.perform (terms.outside now time) action).runner = next
    at connection attempts reports readers delay
  have brings : next.world.Brings = runner.world.Brings := by
    unfold Wires.Brings
    rw [readers, reports]
  apply Stock.ext
  · by_cases drops : action = .dropTransport
    · simp [Stock.plan, Runner.stock, connection, drops]
    · simp [Stock.plan, Runner.stock, connection, drops, dropsFirst, Ne.symm drops]
  · simp only [Stock.plan, Runner.stock, attempts, reports, List.count_cons, List.count_nil]
    omega
  · apply propext
    simp only [Stock.plan, Runner.stock, delay, List.mem_cons, not_or]
    constructor
    · rintro (⟨delay, later⟩ | ⟨⟨delay, now⟩ | ⟨runs, keeps⟩, stays⟩)
      · exact Or.inl ⟨delay, Or.inr later⟩
      · exact Or.inl ⟨delay, Or.inl now⟩
      · exact Or.inr ⟨runs, keeps, stays⟩
    · rintro (⟨delay, now | later⟩ | ⟨runs, keeps, stays⟩)
      · have stays := delays delay (now ▸ List.mem_cons_self)
        exact Or.inr ⟨Or.inl ⟨delay, now⟩, fun member => stays (List.mem_cons_of_mem _ member)⟩
      · exact Or.inl ⟨delay, later⟩
      · exact Or.inr ⟨Or.inr ⟨runs, keeps⟩, stays⟩
  · apply propext
    simp only [Stock.plan, Runner.stock, connection]
    clear delays going
    cases current : runner.connection with
    | none => cases action <;> simp [dropsFirst]
    | some id =>
      cases action with
      | closeTransport code reason =>
        have listed : .dropTransport ∉ .closeTransport code reason :: actions := by
          simpa using dropsFirst
        constructor
        · intro _
          exact ⟨listed, Or.inr ⟨Option.some_ne_none id, code, reason, List.mem_cons_self⟩⟩
        · intro _
          exact ⟨dropsFirst, Or.inl ⟨id, rfl, List.mem_cons_self⟩⟩
      | _ => simp [Gear.after, dropsFirst]
  · apply propext
    simp only [Stock.plan, Runner.stock, connection, brings]
    by_cases drops : action = .dropTransport
    · simp [drops]
    · simp [drops, dropsFirst, Ne.symm drops]

/-- A session that carries out an action stays ready. A failure comes up only where it may. -/
theorem Ready.action (terms : Terms σ) {rig : Rig κ σ} (ready : rig.Ready)
    (sound : rig.course.Sound) {action : Action} {actions : List Action} {events : List Event}
    (work : rig.course.work = .busy (action :: actions) events) :
    let effect :=
      rig.course.runner.perform (terms.outside rig.course.now rig.course.time) action
    Ready ⟨{ rig.course with
        runner := effect.runner
        work := .busy actions (events ++ effect.followUp.toList)
        news := rig.course.news ++ effect.news },
      rig.gear.after rig.course.runner.connection action⟩ := by
  intro effect
  obtain ⟨lifecycle, connection, _⟩ :=
    Runner.perform_leaves terms rig.course.now rig.course.time rig.course.runner action
  have equips := Runner.perform_equips terms rig.course.now rig.course.time rig.course.runner action
  have state : effect.runner.lifecycle.state = rig.course.state :=
    congrArg Lifecycle.state lifecycle
  have dropsFirst : .dropTransport ∉ actions := by
    simpa [work, Work.actions] using sound.dropsFirst
  have delays : ∀ delay, .scheduleReconnect delay ∈ action :: actions →
      .cancelReconnect ∉ action :: actions := by
    simpa only [work, Work.actions] using ready.delays
  have stock (going : effect.runner.stranded = false) :
      (effect.runner.stock (rig.gear.after rig.course.runner.connection action)).plan actions =
        rig.stock := by
    rw [stock_perform terms _ _ _ _ dropsFirst delays going, Rig.stock, work]
    rfl
  refine ⟨?_, ?_, ?_, ?_⟩
  · change (rig.gear.after _ action).readers = effect.runner.connection.toList
    rw [connection]
    exact Gear.readers_after ready.inHand action
  · intro going done
    change effect.runner.lifecycle.state.Suits ((effect.runner.stock _).plan actions)
    rw [state, stock going]
    have first : events = [] := (List.append_eq_nil_iff.mp done).1
    exact ready.suits (equips going).1 (by rw [work]; exact first)
  · intro going event member
    change effect.runner.lifecycle.state.Awaits ((effect.runner.stock _).plan actions) event
    rw [state, stock going]
    have before := (equips going).1
    rcases List.mem_append.mp member with older | new
    · exact ready.awaits before event (by rw [work]; exact older)
    · obtain ⟨⟨alone, _⟩, loss, stands⟩ := sound.provoked work _ (Option.mem_toList.mp new)
      have suits := ready.suits before (by rw [work]; exact alone)
      exact suits.awaits_loss loss stands
  · intro delay member cancels
    exact delays delay (List.mem_cons_of_mem _ member) (List.mem_cons_of_mem _ cancels)

theorem Ready.event {rig : Rig κ σ} (ready : rig.Ready) (sound : rig.course.Sound) {event : Event}
    {events : List Event} (work : rig.course.work = .busy [] (event :: events)) :
    Ready ⟨{ rig.course with
        runner := { rig.course.runner with
          lifecycle := (rig.course.runner.lifecycle.handle event).1 }
        work := .busy (rig.course.runner.lifecycle.handle event).2 events },
      rig.gear⟩ := by
  obtain rfl := sound.alone work
  refine ⟨ready.inHand, ?_, by simp [Work.events], ?_⟩
  · intro going _
    have awaits := ready.awaits going event (by rw [work]; exact List.mem_cons_self)
    rw [stock, work, Work.actions, Stock.plan_nil] at awaits
    exact rig.course.runner.lifecycle.suits_handle event rig.base awaits
  · intro delay scheduled
    exact rig.course.runner.lifecycle.delays_handle event scheduled

/-- A session that works stays ready with everything that it does. -/
theorem Ready.advance (terms : Terms σ) {rig : Rig κ σ} (ready : rig.Ready)
    (sound : rig.course.Sound) :
    (Rig.mk (rig.course.advance terms) (rig.course.gearAfter terms rig.gear .proceed)).Ready := by
  unfold Course.advance
  by_cases broken : rig.course.runner.stranded
  · rw [if_pos broken, Course.gearAfter_proceed terms rig.gear (by simp [broken])]
    exact ready
  · have going : rig.course.runner.stranded = false := Bool.eq_false_iff.mpr broken
    rw [if_neg broken]
    cases work : rig.course.work with
    | waiting =>
      rw [Course.gearAfter_proceed terms rig.gear (by simp [work, Work.actions])]
      exact ready
    | busy actions events =>
      cases actions with
      | cons action actions =>
        rw [Course.gearAfter_action terms rig.gear work going]
        exact ready.action terms sound work
      | nil =>
        cases events with
        | cons event events =>
          rw [Course.gearAfter_proceed terms rig.gear (by simp [work, Work.actions])]
          exact ready.event sound work
        | nil =>
          rw [Course.gearAfter_proceed terms rig.gear (by simp [work, Work.actions])]
          have suits := ready.suits going (by rw [work]; rfl)
          rw [stock, work, Work.actions, Stock.plan_nil] at suits
          obtain ⟨published, shown⟩ := rig.course.runner.publish_runner
          simp only [shown]
          exact ready_on none rfl ready.inHand (fun _ => suits) (by simp)

private theorem Ready.endAttempt {rig : Rig κ σ} (ready : rig.Ready) (opened : List ConnectionId)
    {report : TransportEvent} (result : report.isResult) :
    Ready ⟨rig.course.endAttempt opened report, rig.gear⟩ := by
  rcases rig.course.endAttempt_cases opened report with same | ⟨some, ends⟩
  · rw [same]
    exact ready
  · rw [ends]
    refine ready.congr rfl rfl rfl rfl (Runner.stock_congr rfl ?_ rfl ?_)
    · simp only [Course.wires, Course.withWires, List.countP_append, List.countP_singleton,
        result, ↓reduceIte] at some ⊢
      omega
    · exact fun id => rig.course.wires.brings_result result id

private theorem Ready.read {rig : Rig κ σ} (ready : rig.Ready) (id : ConnectionId) (last : Bool)
    {report : TransportEvent} (noResult : report.isResult = false)
    (ends : ∀ other, report.ends other = (last && decide (id = other))) :
    Ready ⟨rig.course.read id last report, rig.gear⟩ := by
  unfold Course.read
  by_cases listens : id ∈ rig.course.wires.readers
  · simp only [listens, ↓reduceIte]
    refine ready.congr rfl rfl rfl rfl (Runner.stock_congr rfl ?_ rfl ?_)
    · simp [Course.wires, Course.withWires, noResult]
    · exact fun other => rig.course.wires.brings_read listens ends other
  · simp only [listens, ↓reduceIte]
    exact ready

/-- Readers and attempts may do what they will: the session stays ready. -/
theorem Ready.turn [DecidableEq κ] (terms : Terms σ) {rig : Rig κ σ} (ready : rig.Ready)
    (sound : rig.course.Sound) (next : Turn κ σ) : (rig.turn terms next).Ready := by
  cases next with
  | submit message caller => exact ready.congr rfl rfl rfl rfl rfl
  | notify message =>
    simp only [Rig.turn, Course.turn]
    split
    · exact ready.congr rfl rfl rfl rfl rfl
    · exact ready
  | abandon caller => exact ready.congr rfl rfl rfl rfl rfl
  | tick now time => exact ready.congr rfl rfl rfl rfl rfl
  | happen change => exact ready.congr rfl rfl rfl rfl rfl
  | openLine id =>
    simp only [Rig.turn, Course.turn]
    split
    · exact ready
    · exact ready.endAttempt [id] rfl
  | refuse reason => exact ready.endAttempt [] rfl
  | arrive id frame => exact ready.read id false rfl fun _ => rfl
  | hangUp id frame => exact ready.read id true rfl fun _ => rfl
  | breakLine id reason => exact ready.read id true rfl fun _ => rfl
  | take choice =>
    simp only [Rig.turn]
    by_cases waits : rig.course.Waits
    · rw [Course.turn_take_of_waits terms waits]
      exact ready.attend terms waits choice
    · rw [Course.turn_take_of_not_waits terms waits,
        Course.gearAfter_take terms rig.gear choice fun also => absurd also waits]
      exact ready
  | proceed => exact ready.advance terms sound

variable [DecidableEq κ] (terms : Terms σ) (now : Instant) (time : Timestamp) (rest : σ)
  (turns : List (Turn κ σ))

/-- A session is ready throughout its course. -/
theorem ready_play : ((start terms now time rest).play terms turns).Ready := by
  have both : ((start terms now time rest).play terms turns).Ready ∧
      ((start terms now time rest).play terms turns).course.Sound := by
    refine play_keeps terms (fun rig => rig.Ready ∧ rig.course.Sound) ?_ _ turns
      ⟨ready_start terms now time rest, Course.sound_start terms now time rest⟩
    rintro rig next ⟨ready, sound⟩
    exact ⟨ready.turn terms sound next, sound.turn terms next⟩
  exact both.1

/-- A session that waits has at most one connection, to which alone it listens. Without one it has
either a delay that runs or one attempt that is under way or over, and never both. With one it is
connected or ends, has no attempt, and will learn of the connection's end, which it has asked for if
it ends. -/
theorem waits_for_something (waits : ((Course.start terms now time rest).play terms turns).Waits) :
    let rig := (start terms now time rest).play terms turns
    let runner := rig.course.runner
    let wires := rig.course.wires
    let dialing := wires.attempts + wires.reports.countP TransportEvent.isResult
    let learns (id : ConnectionId) := id ∈ rig.gear.readers ∧ id ∈ wires.readers ∨
      ∃ report ∈ wires.reports, report.ends id
    rig.course = (Course.start terms now time rest).play terms turns ∧
      rig.gear.readers = runner.connection.toList ∧
      (rig.course.state = .disconnected →
        runner.reconnectAt.isSome ∧ runner.connection = none ∧ rig.gear.readers = [] ∧
          dialing = 0) ∧
      (rig.course.state = .connecting →
        dialing = 1 ∧ runner.connection = none ∧ runner.reconnectAt = none) ∧
      (rig.course.state = .connected →
        (∃ id, runner.connection = some id ∧ learns id) ∧ dialing = 0 ∧
          runner.reconnectAt = none) ∧
      (rig.course.state = .closing →
        dialing = 1 ∧ runner.connection = none ∨
          (∃ id, runner.connection = some id ∧ id ∈ rig.gear.closing ∧ learns id) ∧
            dialing = 0) := by
  intro rig runner wires dialing learns
  have played : rig.course = (Course.start terms now time rest).play terms turns :=
    course_play terms _ turns
  have ready : rig.Ready := ready_play terms now time rest turns
  have suits : rig.course.state.Suits rig.base := ready.suits_of_waiting (played ▸ waits)
  have brings {id : ConnectionId} (current : runner.connection = some id)
      (brought : wires.Brings id) : learns id := by
    rcases brought with runs | reported
    · refine Or.inl ⟨?_, runs⟩
      rw [ready.inHand]
      exact Option.mem_toList.mpr current
    · exact Or.inr reported
  refine ⟨played, ready.inHand, ?_, ?_, ?_, ?_⟩
  · intro stands
    rw [stands] at suits
    obtain ⟨line, attempts, delay⟩ := suits
    refine ⟨delay, line, ?_, attempts⟩
    rw [ready.inHand]
    exact congrArg Option.toList line
  · intro stands
    rw [stands] at suits
    obtain ⟨line, attempts, delay⟩ := suits
    exact ⟨attempts, line, Option.not_isSome_iff_eq_none.mp delay⟩
  · intro stands
    rw [stands] at suits
    obtain ⟨_, ⟨id, current, brought⟩, attempts, delay⟩ := suits
    exact ⟨⟨id, current, brings current brought⟩, attempts,
      Option.not_isSome_iff_eq_none.mp delay⟩
  · intro stands
    rw [stands] at suits
    rcases suits with ⟨line, attempts⟩ | ⟨_, ⟨id, current, asked⟩, ⟨other, also, brought⟩, attempts⟩
    · exact Or.inl ⟨attempts, line⟩
    · cases current.symm.trans also
      exact Or.inr ⟨⟨id, current, asked, brings current brought⟩, attempts⟩

/-- A session connects, and the application ends it. -/
def leaving : List (Turn Nat Unit) :=
  [.proceed, .proceed, .proceed, .openLine ⟨1⟩, .take .report, .proceed, .proceed, .proceed,
    .take .disconnect, .proceed, .proceed, .proceed, .proceed, .proceed]

/-- The session waits for the end of the connection that it asked to close. -/
theorem waits_for_something_leaving :
    ((Course.start Terms.plain ⟨0⟩ ⟨0⟩ ()).play Terms.plain leaving).Waits ∧
      let rig := (start Terms.plain ⟨0⟩ ⟨0⟩ ()).play Terms.plain leaving
      ∃ id, rig.course.runner.connection = some id ∧ id ∈ rig.gear.closing ∧
        (id ∈ rig.gear.readers ∧ id ∈ rig.course.wires.readers ∨
          ∃ report ∈ rig.course.wires.reports, report.ends id) := by
  have waits : ((Course.start Terms.plain ⟨0⟩ ⟨0⟩ ()).play Terms.plain leaving).Waits := ⟨rfl, rfl⟩
  obtain ⟨_, _, _, _, _, closing⟩ := waits_for_something Terms.plain ⟨0⟩ ⟨0⟩ () leaving waits
  rcases closing rfl with ⟨_, none⟩ | ⟨waiting, _⟩
  · cases none
  · exact ⟨waits, waiting⟩

end Rig

end Tether.Session
