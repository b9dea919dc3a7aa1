import Tether.Proofs.Session.Gear
import Tether.Proofs.Session.Progress

/-! An event may bring about another one: a send or a close may fail, and a session without
connection counts as closed when it closes. What comes up waits its turn behind what waits already,
and the session goes on until nothing waits. Nothing in this loop gets smaller for all to see. It
ends because an event asks for at most one action that may bring about another event, because only
losses are brought about, and because a loss asks for no such action, wherever the session stands.

The frames that a session gives to its connection meanwhile are listed beside the world, and the
list is compared with the frames that waited. -/

namespace Tether.Session

open Time (Timestamp)
open Transport (ConnectionId TransportError)

variable {κ σ : Type}

/-- How many events a session handles at most on account of those that wait: each of them, and for
each that is no loss a loss that it brings about. -/
def Event.price (waiting : List Event) : Nat :=
  waiting.length + waiting.countP fun event => !event.isLoss

theorem Event.price_append (waiting more : List Event) :
    price (waiting ++ more) = price waiting + price more := by
  simp only [price, List.length_append, List.countP_append]
  omega

theorem Event.price_cons (event : Event) (waiting : List Event) :
    price (event :: waiting) = price [event] + price waiting :=
  price_append [event] waiting

theorem Event.price_le (event : Event) : price [event] ≤ 2 := by
  unfold price
  exact Nat.add_le_add_left List.countP_le_length 1

theorem Event.price_losses {events : List Event}
    (losses : ∀ event ∈ events,
      (∃ reason, event = .failed reason) ∨ ∃ frame, event = .closed frame) :
    price events = events.length := by
  have none : events.countP (fun event => !event.isLoss) = 0 := by
    refine List.countP_eq_zero.mpr fun event member => ?_
    simp [Event.isLoss_iff.mpr (losses event member)]
  rw [price, none, Nat.add_zero]

namespace Lifecycle

variable (machine : Lifecycle) {event : Event}

/-- The price of an event covers what it asks for. -/
theorem provokes_lt_price (event : Event) :
    (machine.handle event).2.countP Action.provokes < Event.price [event] := by
  have few := (machine.asks_handle event).provokes
  cases event with
  | failed reason =>
    rw [machine.handle_loss_provokes (Or.inl ⟨reason, rfl⟩)]
    exact Nat.one_pos
  | closed frame =>
    rw [machine.handle_loss_provokes (Or.inr ⟨frame, rfl⟩)]
    exact Nat.one_pos
  | _ => exact Nat.lt_succ_of_le few

/-- Only a connection that was just opened is flushed, and nothing else is done then. -/
theorem handle_flushes (flushes : .flushQueue ∈ (machine.handle event).2) :
    (machine.handle event).2 = [.flushQueue] := by
  have lost : .flushQueue ∉ machine.onLoss := by
    unfold onLoss
    cases machine.resend <;> simp
  revert flushes
  unfold handle
  split
  case h_9 => split <;> simp [lost]
  all_goals simp [lost, closeForGood]

theorem handle_loss_quiet
    (loss : (∃ reason, event = .failed reason) ∨ ∃ frame, event = .closed frame) :
    ∀ action ∈ (machine.handle event).2, ¬ action.provokes :=
  List.countP_eq_zero.mp (machine.handle_loss_provokes loss)

end Lifecycle

namespace Runner

/-- A session handles the events that wait, one after another and whatever they bring about after
them, until nothing waits. Together with what it then leaves stand the events that it handled. -/
inductive Settles (outside : Surroundings σ) :
    Runner κ σ → List Event → List Event → Step κ σ → Prop where
  | rest (runner : Runner κ σ) : Settles outside runner [] [] ⟨runner, []⟩
  | handle {runner : Runner κ σ} {event : Event} {waiting more handled : List Event}
      {first last : Step κ σ} (led : runner.lead outside event = (first, more))
      (onward : Settles outside first.runner (waiting ++ more) handled last) :
      Settles outside runner (event :: waiting) (event :: handled)
        ⟨last.runner, first.news ++ last.news⟩

theorem perform_quiet (outside : Surroundings σ) (runner : Runner κ σ) {action : Action}
    (quiet : ¬ action.provokes) : (runner.perform outside action).followUp = none :=
  Option.eq_none_iff_forall_ne_some.mpr fun event follows =>
    quiet (perform_followUp outside runner action event follows).1

variable {outside : Surroundings σ} {runner : Runner κ σ} {waiting handled : List Event}
  {step : Step κ σ}

/-- The loop ends in one way. -/
theorem Settles.unique {others : List Event} {last : Step κ σ}
    (settles : runner.Settles outside waiting handled step)
    (again : runner.Settles outside waiting others last) : others = handled ∧ last = step := by
  induction settles generalizing others last with
  | rest runner =>
    cases again
    exact ⟨rfl, rfl⟩
  | handle led onward ih =>
    cases again with
    | handle ledAgain further =>
      cases led.symm.trans ledAgain
      obtain ⟨rfl, rfl⟩ := ih further
      exact ⟨rfl, rfl⟩

/-- What an event leads to costs less than the event. -/
theorem lead_price (outside : Surroundings σ) (runner : Runner κ σ) (event : Event) :
    Event.price (runner.lead outside event).2 < Event.price [event] := by
  obtain ⟨bound, losses⟩ := runner.lead_followUps outside event
  calc Event.price (runner.lead outside event).2
    _ = (runner.lead outside event).2.length := Event.price_losses losses
    _ ≤ (runner.lifecycle.handle event).2.countP Action.provokes := bound
    _ < Event.price [event] := runner.lifecycle.provokes_lt_price event

/-- The loop ends, whatever waits and whatever fails, and handles no more events than those that
wait pay for. -/
theorem exists_settles (outside : Surroundings σ) (runner : Runner κ σ) (waiting : List Event) :
    ∃ handled step, runner.Settles outside waiting handled step ∧
      handled.length ≤ Event.price waiting := by
  -- Events come and go, so neither the queue nor the session gets smaller: the price does.
  induction paid : Event.price waiting using Nat.strongRecOn generalizing runner waiting with
  | _ price ih =>
    cases waiting with
    | nil => exact ⟨[], ⟨runner, []⟩, .rest runner, Nat.zero_le price⟩
    | cons event waiting =>
      have cheaper := runner.lead_price outside event
      rw [Event.price_cons] at paid
      have less : Event.price (waiting ++ (runner.lead outside event).2) < price := by
        rw [Event.price_append]
        omega
      obtain ⟨handled, last, onward, bound⟩ :=
        ih _ less (runner.lead outside event).1.runner _ rfl
      exact ⟨event :: handled, _, .handle rfl onward, Nat.lt_of_le_of_lt bound less⟩

/-- With a bound that is large enough nothing is left. -/
theorem Settles.drain_eq (settles : runner.Settles outside waiting handled step) {limit : Nat}
    (enough : handled.length ≤ limit) : drain outside limit runner waiting = (step, []) := by
  induction settles generalizing limit with
  | rest runner => cases limit <;> rfl
  | @handle runner event waiting more handled first last led onward ih =>
    cases limit with
    | zero => exact absurd enough (Nat.not_succ_le_zero _)
    | succ limit =>
      have further := ih (Nat.le_of_succ_le_succ enough)
      unfold lead at led
      simp only [drain, led, further]

/-- An event that is processed is handled with everything that it brings about, if that is within
the bound. -/
theorem Settles.process_eq {event : Event} (settles : runner.Settles outside [event] handled step)
    (enough : handled.length ≤ eventsPerStep) :
    runner.process outside event =
      ⟨step.runner.publish.runner, step.news ++ step.runner.publish.news⟩ := by
  simp only [process, settles.drain_eq enough]

end Runner

/-- The same carrier with a list of the frames that it was given to send. -/
def Carrier.logged (carrier : Carrier σ) : Carrier (σ × List Bytes) where
  dial world := (carrier.dial world.1, world.2)
  listen id world := (carrier.listen id world.1, world.2)
  send id frame world :=
    let (failure, next) := carrier.send id frame world.1
    (failure, next, world.2 ++ [frame])
  close id code reason world :=
    let (failure, next) := carrier.close id code reason world.1
    (failure, next, world.2)
  letGo id world := (carrier.letGo id world.1, world.2)

def Surroundings.logged (outside : Surroundings σ) : Surroundings (σ × List Bytes) :=
  ⟨outside.carrier.logged, outside.signing, outside.now, outside.time⟩

def Runner.logged (runner : Runner κ σ) (sent : List Bytes) : Runner κ (σ × List Bytes) where
  core := runner.core
  lifecycle := runner.lifecycle
  connection := runner.connection
  reconnectAt := runner.reconnectAt
  published := runner.published
  stranded := runner.stranded
  world := (runner.world, sent)

/-- A flush gives frames to its connection that waited, from the front, each once. -/
theorem Outbox.sendFrames_log {α : Type} (log : α → List Bytes)
    (send : Bytes → α → Option TransportError × α) (note : QueuedFrame → α → α)
    (sends : ∀ bytes world, log (send bytes world).2 = log world ++ [bytes])
    (notes : ∀ frame world, log (note frame world) = log world) (frames : List QueuedFrame)
    (world : α) :
    ∃ offered, offered <+: frames.map QueuedFrame.bytes ∧
      log (sendFrames send note frames world).2.2 = log world ++ offered := by
  induction frames generalizing world with
  | nil => exact ⟨[], List.nil_prefix, (List.append_nil _).symm⟩
  | cons frame frames ih =>
    have logged := sends frame.bytes world
    rcases sent : send frame.bytes world with ⟨_ | failure, next⟩
    · obtain ⟨offered, before, more⟩ := ih (note frame next)
      rw [sent] at logged
      rw [notes, logged, List.append_assoc] at more
      refine ⟨frame.bytes :: offered, List.prefix_cons_inj _ |>.mpr before, ?_⟩
      simp only [sendFrames, sent]
      exact more
    · rw [sent] at logged
      refine ⟨[frame.bytes], List.prefix_cons_inj _ |>.mpr List.nil_prefix, ?_⟩
      simp only [sendFrames, sent]
      exact logged

theorem Core.flush_logged (core : Core κ) (carrier : Carrier σ) (id : ConnectionId)
    (time : Timestamp) (world : σ) (sent : List Bytes) :
    ∃ offered, offered <+: core.outbox.frames.map QueuedFrame.bytes ∧
      core.flush (carrier.logged.send id) time (world, sent) =
        ((core.flush (carrier.send id) time world).1, (core.flush (carrier.send id) time world).2.1,
          (core.flush (carrier.send id) time world).2.2, sent ++ offered) := by
  obtain ⟨offered, before, logged⟩ :=
    Outbox.sendFrames_log (fun state : Registry κ × (σ × List Bytes) => state.2.2)
      (fun bytes state =>
        ((carrier.logged.send id bytes state.2).1, state.1,
          (carrier.logged.send id bytes state.2).2))
      (fun frame state => (state.1.markSent frame.id time, state.2))
      (fun _ _ => rfl) (fun _ _ => rfl) core.outbox.frames (core.registry, world, sent)
  have same := Outbox.sendFrames_lift
    (fun state : Registry κ × (σ × List Bytes) => (state.1, state.2.1))
    (fun bytes state =>
      ((carrier.logged.send id bytes state.2).1, state.1, (carrier.logged.send id bytes state.2).2))
    (fun frame state => (state.1.markSent frame.id time, state.2))
    (fun bytes state =>
      ((carrier.send id bytes state.2).1, state.1, (carrier.send id bytes state.2).2))
    (fun frame state => (state.1.markSent frame.id time, state.2))
    (fun _ _ => rfl) (fun _ _ => rfl) core.outbox.frames (core.registry, world, sent)
  refine ⟨offered, before, ?_⟩
  simp only [flush, Outbox.flush, same]
  rw [← logged]

namespace Runner

variable (outside : Surroundings σ) (runner : Runner κ σ) (sent : List Bytes)

/-- A flush gives frames to the connection that wait in the outbox, from the front, each once at
most. The list changes nothing. -/
theorem flush_logged :
    ∃ offered, offered <+: runner.core.outbox.frames.map QueuedFrame.bytes ∧
      (runner.logged sent).flush outside.logged =
        ((runner.flush outside).1.logged (sent ++ offered), (runner.flush outside).2) := by
  have idle : ∃ offered, offered <+: runner.core.outbox.frames.map QueuedFrame.bytes ∧
      (runner.logged sent, none) = (runner.logged (sent ++ offered), (none : Option Event)) :=
    ⟨[], List.nil_prefix, by rw [List.append_nil]⟩
  cases state : runner.lifecycle.state with
  | connected =>
    cases current : runner.connection with
    | some id =>
      obtain ⟨offered, before, same⟩ :=
        runner.core.flush_logged outside.carrier id outside.time runner.world sent
      refine ⟨offered, before, ?_⟩
      simp only [flush, logged, state, current, Surroundings.logged, same]
    | none => simpa only [flush, logged, state, current] using idle
  | _ => simpa only [flush, logged, state] using idle

theorem perform_logged {action : Action} (other : action ≠ .flushQueue) :
    (runner.logged sent).perform outside.logged action =
      { runner := (runner.perform outside action).runner.logged sent
        news := (runner.perform outside action).news
        followUp := (runner.perform outside action).followUp } := by
  cases action with
  | flushQueue => exact absurd rfl other
  | scheduleReconnect delay =>
    simp only [perform, Surroundings.logged]
    split <;> rfl
  | closeTransport code reason =>
    cases current : runner.connection <;>
      simp [perform, close, logged, current, Surroundings.logged, Carrier.logged]
  | dropTransport =>
    cases current : runner.connection <;>
      simp [perform, dropTransport, logged, current, Surroundings.logged, Carrier.logged]
  | _ => rfl

theorem performAll_logged {actions : List Action} (other : .flushQueue ∉ actions) :
    (runner.logged sent).performAll outside.logged actions =
      (⟨(runner.performAll outside actions).1.runner.logged sent,
        (runner.performAll outside actions).1.news⟩, (runner.performAll outside actions).2) := by
  induction actions generalizing runner with
  | nil => rfl
  | cons action actions ih =>
    have here := runner.perform_logged outside sent (List.ne_of_not_mem_cons other).symm
    simp only [performAll, here, ih _ (List.not_mem_of_not_mem_cons other)]

/-- What an event leads to gives frames to the connection only if it asks for a flush. -/
theorem lead_logged_quiet {event : Event}
    (other : .flushQueue ∉ (runner.lifecycle.handle event).2) :
    (runner.logged sent).lead outside.logged event =
      (⟨(runner.lead outside event).1.runner.logged sent, (runner.lead outside event).1.news⟩,
        (runner.lead outside event).2) :=
  performAll_logged outside { runner with lifecycle := (runner.lifecycle.handle event).1 } sent other

theorem lead_logged (event : Event) :
    ∃ offered, offered <+: runner.core.outbox.frames.map QueuedFrame.bytes ∧
      (runner.logged sent).lead outside.logged event =
        (⟨(runner.lead outside event).1.runner.logged (sent ++ offered),
          (runner.lead outside event).1.news⟩, (runner.lead outside event).2) := by
  by_cases flushes : .flushQueue ∈ (runner.lifecycle.handle event).2
  · -- Nothing was put back before the flush, so it finds the outbox as it was.
    have alone := runner.lifecycle.handle_flushes flushes
    obtain ⟨offered, before, same⟩ :=
      flush_logged outside { runner with lifecycle := (runner.lifecycle.handle event).1 } sent
    refine ⟨offered, before, ?_⟩
    change performAll outside.logged
      (logged { runner with lifecycle := (runner.lifecycle.handle event).1 } sent)
      (runner.lifecycle.handle event).2 = _
    simp only [lead, alone, performAll, perform, same]
  · refine ⟨[], List.nil_prefix, ?_⟩
    rw [List.append_nil]
    exact runner.lead_logged_quiet outside sent flushes

variable {outside runner} {waiting handled : List Event} {step : Step κ σ}

theorem Settles.logged_losses (settles : runner.Settles outside waiting handled step)
    (losses : ∀ event ∈ waiting,
      (∃ reason, event = .failed reason) ∨ ∃ frame, event = .closed frame) :
    (runner.logged sent).Settles outside.logged waiting handled
      ⟨step.runner.logged sent, step.news⟩ := by
  induction settles with
  | rest runner => exact .rest _
  | @handle runner event waiting more handled first last led onward ih =>
    have brought := (runner.lead_followUps outside event).2
    have quiet := runner.lifecycle.handle_loss_quiet (losses event List.mem_cons_self)
    have same := runner.lead_logged_quiet outside sent fun flushes => quiet _ flushes rfl
    rw [led] at brought same
    refine .handle same (ih ?_)
    intro loss member
    rcases List.mem_append.mp member with waits | new
    · exact losses loss (List.mem_cons_of_mem event waits)
    · exact brought loss new

/-- An event with everything that it brings about gives frames to the connection that waited before,
from the front, each once at most. -/
theorem Settles.logged {event : Event} (settles : runner.Settles outside [event] handled step) :
    ∃ offered, offered <+: runner.core.outbox.frames.map QueuedFrame.bytes ∧
      (runner.logged sent).Settles outside.logged [event] handled
        ⟨step.runner.logged (sent ++ offered), step.news⟩ := by
  cases settles with
  | handle led onward =>
    have brought := (runner.lead_followUps outside event).2
    obtain ⟨offered, before, same⟩ := runner.lead_logged outside sent event
    rw [led] at brought same
    exact ⟨offered, before, .handle same (onward.logged_losses (sent ++ offered) brought)⟩

theorem publish_logged :
    (runner.logged sent).publish =
      ⟨runner.publish.runner.logged sent, runner.publish.news⟩ := by
  by_cases silent : runner.stranded ∨ runner.published = runner.lifecycle.state <;>
    simp [publish, Runner.logged, silent]

/-- A session that processes an event comes to rest, whatever state it is in and however its sends
and its close turn out. The loop without a bound ends in one way, after two events at most, and the
session is left as that loop leaves it: the bound cuts nothing short. An event that an action brings
about asks for no action that brings about another one, whatever happens in between and whatever
session carries it out. A flush gives to the connection what waits in the outbox, from the front and
each frame once at most, and so does everything that the event brings about, taken together. -/
theorem every_event_comes_to_rest (outside : Surroundings σ) (runner : Runner κ σ)
    (event : Event) :
    (∃ handled step, runner.Settles outside [event] handled step ∧ handled.length ≤ 2 ∧
      (∀ others last, runner.Settles outside [event] others last →
        others = handled ∧ last = step) ∧
      runner.process outside event =
        ⟨step.runner.publish.runner, step.news ++ step.runner.publish.news⟩) ∧
    (∀ action follow, (runner.perform outside action).followUp = some follow →
      ∀ (machine : Lifecycle), ∀ next ∈ (machine.handle follow).2,
        ∀ (around : Surroundings σ) (other : Runner κ σ),
          (other.perform around next).followUp = none) ∧
    (∀ sent, ∃ offered, offered <+: runner.core.outbox.frames.map QueuedFrame.bytes ∧
      offered.length ≤ runner.core.outbox.size ∧
      (runner.logged sent).flush outside.logged =
        ((runner.flush outside).1.logged (sent ++ offered), (runner.flush outside).2)) ∧
    (∀ sent, ∃ offered, offered <+: runner.core.outbox.frames.map QueuedFrame.bytes ∧
      offered.length ≤ runner.core.outbox.size ∧
      (runner.logged sent).process outside.logged event =
        ⟨(runner.process outside event).runner.logged (sent ++ offered),
          (runner.process outside event).news⟩) := by
  have few {offered : List Bytes}
      (before : offered <+: runner.core.outbox.frames.map QueuedFrame.bytes) :
      offered.length ≤ runner.core.outbox.size :=
    Nat.le_trans before.length_le (Nat.le_of_eq (List.length_map _))
  obtain ⟨handled, step, settles, bound⟩ := exists_settles outside runner [event]
  have two : handled.length ≤ eventsPerStep := Nat.le_trans bound event.price_le
  have processed := settles.process_eq two
  refine ⟨⟨handled, step, settles, two, fun _ _ => settles.unique, processed⟩, ?_, ?_, ?_⟩
  · intro action follow follows machine next asked around other
    obtain ⟨_, loss, _⟩ := perform_followUp outside runner action follow follows
    exact perform_quiet around other (machine.handle_loss_quiet loss next asked)
  · intro sent
    obtain ⟨offered, before, same⟩ := runner.flush_logged outside sent
    exact ⟨offered, before, few before, same⟩
  · intro sent
    obtain ⟨offered, before, beside⟩ := settles.logged sent
    refine ⟨offered, before, few before, ?_⟩
    rw [beside.process_eq two, processed, publish_logged]

end Runner

end Tether.Session
