import Tether.Proofs.Session.Phase

namespace Tether.Session

open Time (Instant Timestamp)

variable {κ σ : Type}

namespace Lifecycle

theorem handle_loss_provokes (machine : Lifecycle) {event : Event}
    (loss : (∃ reason, event = .failed reason) ∨ ∃ frame, event = .closed frame) :
    (machine.handle event).2.countP Action.provokes = 0 := by
  have lost : machine.onLoss.countP Action.provokes = 0 := by
    unfold onLoss
    cases machine.resend <;> simp [Action.provokes]
  rcases loss with ⟨reason, rfl⟩ | ⟨frame, rfl⟩
  · unfold handle
    split <;> simp_all [Action.provokes]
  · unfold handle
    split
    case h_9 =>
      split
      · simp [Action.provokes]
      · exact lost
    all_goals simp_all [Action.provokes]

theorem handle_schedules (machine : Lifecycle) {event : Event} {delay : Time.Interval}
    (schedules : .scheduleReconnect delay ∈ (machine.handle event).2) :
    (machine.handle event).2.countP Action.provokes = 0 := by
  refine machine.handle_loss_provokes ?_
  obtain ⟨state, backoff, resend, failures⟩ := machine
  cases event with
  | failed reason => exact Or.inl ⟨reason, rfl⟩
  | closed frame => exact Or.inr ⟨frame, rfl⟩
  | _ => cases state <;> simp [handle, closeForGood] at schedules

theorem handle_schedules_last (machine : Lifecycle) (event : Event) (delay : Time.Interval) :
    .scheduleReconnect delay ∉ (machine.handle event).2.dropLast := by
  have lost : .scheduleReconnect delay ∉ machine.onLoss.dropLast := by
    unfold onLoss
    rw [List.dropLast_concat]
    cases machine.resend <;> simp
  unfold handle
  split
  case h_9 =>
    split
    · simp
    · exact lost
  case h_10 => exact lost
  all_goals simp [closeForGood]

end Lifecycle

namespace Runner

variable (outside : Surroundings σ) (runner : Runner κ σ)

theorem stranded_perform {action : Action} (other : ∀ delay, action ≠ .scheduleReconnect delay) :
    (runner.perform outside action).runner.stranded = runner.stranded := by
  cases action with
  | scheduleReconnect delay => exact absurd rfl (other delay)
  | flushQueue =>
    simp only [perform, flush]
    split <;> rfl
  | closeTransport code reason =>
    simp only [perform, close]
    split <;> rfl
  | dropTransport =>
    simp only [perform, dropTransport]
    split <;> rfl
  | _ => rfl

theorem stranded_performAll {actions : List Action}
    (other : ∀ delay, .scheduleReconnect delay ∉ actions) :
    (runner.performAll outside actions).1.runner.stranded = runner.stranded := by
  induction actions generalizing runner with
  | nil => rfl
  | cons action actions ih =>
    simp only [performAll]
    rw [ih _ fun delay member => other delay (List.mem_cons_of_mem _ member)]
    exact stranded_perform outside runner fun delay same => other delay (same ▸ List.mem_cons_self)

/-- Every event that actions bring about is a loss, and comes of an action that may fail. -/
theorem performAll_followUps (actions : List Action) :
    (runner.performAll outside actions).2.length ≤ actions.countP Action.provokes ∧
      ∀ event ∈ (runner.performAll outside actions).2,
        (∃ reason, event = .failed reason) ∨ ∃ frame, event = .closed frame := by
  induction actions generalizing runner with
  | nil => simp [performAll]
  | cons action actions ih =>
    obtain ⟨bound, losses⟩ := ih (runner.perform outside action).runner
    simp only [performAll, List.length_append, List.countP_cons]
    cases follows : (runner.perform outside action).followUp with
    | none =>
      rw [Option.toList_none, List.length_nil, List.nil_append]
      exact ⟨by omega, losses⟩
    | some event =>
      obtain ⟨provokes, loss, _⟩ := perform_followUp outside runner action event follows
      rw [Option.toList_some, List.length_singleton, if_pos provokes]
      refine ⟨by omega, ?_⟩
      intro other member
      rcases List.mem_append.mp member with here | later
      · rw [List.mem_singleton.mp here]
        exact loss
      · exact losses other later

/-- What an event leads to: what its actions leave, and the events they bring about. -/
def lead (event : Event) : Step κ σ × List Event :=
  performAll outside { runner with lifecycle := (runner.lifecycle.handle event).1 }
    (runner.lifecycle.handle event).2

theorem lead_followUps (event : Event) :
    (runner.lead outside event).2.length ≤
        (runner.lifecycle.handle event).2.countP Action.provokes ∧
      ∀ loss ∈ (runner.lead outside event).2,
        (∃ reason, loss = .failed reason) ∨ ∃ frame, loss = .closed frame :=
  performAll_followUps outside _ _

theorem lead_loss {event : Event}
    (loss : (∃ reason, event = .failed reason) ∨ ∃ frame, event = .closed frame) :
    (runner.lead outside event).2 = [] := by
  have none := (runner.lead_followUps outside event).1
  rw [runner.lifecycle.handle_loss_provokes loss] at none
  exact List.length_eq_zero_iff.mp (Nat.le_zero.mp none)

/-- Nothing that an event breaks off leads on, and no loss does. -/
theorem lead_cases (event : Event) (runs : runner.stranded = false) :
    (runner.lead outside event).2 = [] ∨
      ∃ loss, (runner.lead outside event).2 = [loss] ∧
        (runner.lead outside event).1.runner.stranded = false ∧
        ∀ other : Runner κ σ, (other.lead outside loss).2 = [] := by
  obtain ⟨bound, losses⟩ := runner.lead_followUps outside event
  have few := (runner.lifecycle.asks_handle event).provokes
  match follows : (runner.lead outside event).2 with
  | [] => exact Or.inl rfl
  | [loss] =>
    rw [follows] at bound losses
    refine Or.inr ⟨loss, rfl, ?_, fun other => other.lead_loss outside ?_⟩
    · rw [← runs]
      refine stranded_performAll outside _ fun delay schedules => ?_
      rw [runner.lifecycle.handle_schedules schedules] at bound
      exact absurd bound (Nat.not_succ_le_zero 0)
    · exact losses loss List.mem_cons_self
  | first :: second :: more =>
    rw [follows, List.length_cons, List.length_cons] at bound
    omega

theorem step_eq_respond (runs : runner.stranded = false) (input : Input) :
    runner.step outside input = runner.respond outside input :=
  if_neg (ne_true_of_eq_false runs)

/-- Handle an event if there is one. -/
def processAny (runner : Runner κ σ) : Option Event → Step κ σ
  | none => ⟨runner, []⟩
  | some event => runner.process outside event

theorem onTransport_eq_processAny (report : TransportEvent) :
    runner.onTransport outside report =
      (runner.receive outside report).1.processAny outside
        (runner.receive outside report).2 := by
  cases report with
  | opened id => rfl
  | refused reason => rfl
  | message id frame =>
    simp only [onTransport, receive]
    split <;> rfl
  | closed id frame =>
    simp only [onTransport, receive]
    split <;> rfl
  | failed id reason =>
    simp only [onTransport, receive]
    split <;> rfl

theorem respond_flush_eq_processAny :
    runner.respond outside .flush =
      (runner.flush outside).1.processAny outside (runner.flush outside).2 := by
  simp only [respond]
  rcases runner.flush outside with ⟨next, _ | event⟩
  · rfl
  · rfl

theorem stranded_flush : (runner.flush outside).1.stranded = runner.stranded := by
  unfold flush
  split <;> rfl

theorem stranded_receive (report : TransportEvent) :
    (runner.receive outside report).1.stranded = runner.stranded := by
  cases report with
  | opened id =>
    simp only [receive, dropTransport]
    split <;> rfl
  | _ => rfl

end Runner

namespace Course

variable (terms : Terms σ)

/-- What a choice is to the session, with what is then left beside it, if there is anything of the
kind. -/
def input (course : Course κ σ) : Choice → Option (Runner.Input × Wires σ)
  | .flush => some (.flush, course.wires)
  | .disconnect => some (.disconnect, course.wires)
  | .report =>
    match course.wires.reports with
    | [] => none
    | report :: reports => some (.transport report, { course.wires with reports })
  | .delay =>
    if course.runner.reconnectAt.any fun due => due.nanos ≤ course.now.nanos then
      some (.delayElapsed, course.wires)
    else none
  | .sweep => some (.sweep, course.wires)

private theorem attend_eq_on (course : Course κ σ) {choice : Choice} {input : Runner.Input}
    {wires : Wires σ} (runs : course.runner.stranded = false)
    (offered : course.input choice = some (input, wires)) (other : choice ≠ .sweep) :
    ∃ runner event, runner.stranded = false ∧
      course.attend terms choice = { course with runner, work := .on event } ∧
      Runner.respond (terms.outside course.now course.time)
          { course.runner with world := wires } input =
        runner.processAny (terms.outside course.now course.time) event := by
  cases choice with
  | flush =>
    cases offered
    exact ⟨_, _, (Runner.stranded_flush _ _).trans runs, rfl,
      Runner.respond_flush_eq_processAny _ course.runner⟩
  | disconnect =>
    cases offered
    exact ⟨course.runner, some .disconnect, runs, rfl, rfl⟩
  | report =>
    cases reported : course.wires.reports with
    | nil => simp [Course.input, reported] at offered
    | cons report reports =>
      simp only [Course.input, reported, Option.some.injEq, Prod.mk.injEq] at offered
      obtain ⟨rfl, rfl⟩ := offered
      refine ⟨_, _, (Runner.stranded_receive _ _ report).trans ?_, ?_,
        Runner.onTransport_eq_processAny _ _ report⟩
      · exact runs
      · simp only [attend, reported]
        rfl
  | delay =>
    by_cases due : course.runner.reconnectAt.any fun due => due.nanos ≤ course.now.nanos
    · have same : input = .delayElapsed ∧ wires = course.wires := by
        simpa [Course.input, due, eq_comm] using offered
      obtain ⟨rfl, rfl⟩ := same
      exact ⟨{ course.runner with reconnectAt := none }, some .delayElapsed, runs, if_pos due, rfl⟩
    · simp [Course.input, due] at offered
  | sweep => exact absurd rfl other

end Course

namespace Course

variable [DecidableEq κ] (terms : Terms σ)

/-- A session gets from one moment to another without anyone else's turn. -/
def GoesTo (course last : Course κ σ) : Prop :=
  ∃ count, course.play terms (List.replicate count .proceed) = last

theorem GoesTo.refl (course : Course κ σ) : course.GoesTo terms course := ⟨0, rfl⟩

theorem GoesTo.step {course last : Course κ σ} (goes : (course.advance terms).GoesTo terms last) :
    course.GoesTo terms last := by
  obtain ⟨count, rfl⟩ := goes
  exact ⟨count + 1, rfl⟩

theorem GoesTo.trans {course next last : Course κ σ} (goes : course.GoesTo terms next)
    (further : next.GoesTo terms last) : course.GoesTo terms last := by
  obtain ⟨count, rfl⟩ := goes
  obtain ⟨more, rfl⟩ := further
  refine ⟨count + more, ?_⟩
  rw [← List.replicate_append_replicate, play_append]

theorem goesTo_performAll (actions : List Action) (course : Course κ σ) (events : List Event)
    (work : course.work = .busy actions events) (runs : course.runner.stranded = false)
    (last : ∀ delay, .scheduleReconnect delay ∉ actions.dropLast) :
    course.GoesTo terms { course with
      runner :=
        (course.runner.performAll (terms.outside course.now course.time) actions).1.runner
      work := .busy [] (events ++
        (course.runner.performAll (terms.outside course.now course.time) actions).2)
      news := course.news ++
        (course.runner.performAll (terms.outside course.now course.time) actions).1.news } := by
  induction actions generalizing course events with
  | nil =>
    simp only [Runner.performAll, List.append_nil]
    rw [← work]
    exact GoesTo.refl terms course
  | cons action actions ih =>
    refine GoesTo.step terms ?_
    have next : course.advance terms = { course with
        runner := (course.runner.perform (terms.outside course.now course.time) action).runner
        work := .busy actions (events ++
          (course.runner.perform (terms.outside course.now course.time) action).followUp.toList)
        news := course.news ++
          (course.runner.perform (terms.outside course.now course.time) action).news } := by
      simp [advance, runs, work]
    rw [next]
    simp only [Runner.performAll, ← List.append_assoc]
    cases actions with
    | nil =>
      simp only [Runner.performAll, List.append_nil]
      exact GoesTo.refl terms _
    | cons second rest =>
      rw [List.dropLast_cons_cons] at last
      refine ih _ _ rfl ?_ fun delay member => last delay (List.mem_cons_of_mem _ member)
      rw [← runs]
      exact Runner.stranded_perform _ _ fun delay same =>
        last delay (same ▸ List.mem_cons_self)

theorem goesTo_lead {course : Course κ σ} {event : Event} (work : course.work = .busy [] [event])
    (runs : course.runner.stranded = false) :
    course.GoesTo terms { course with
      runner := (course.runner.lead (terms.outside course.now course.time) event).1.runner
      work := .busy [] (course.runner.lead (terms.outside course.now course.time) event).2
      news := course.news ++
        (course.runner.lead (terms.outside course.now course.time) event).1.news } := by
  refine GoesTo.step terms ?_
  have next : course.advance terms = { course with
      runner := { course.runner with lifecycle := (course.runner.lifecycle.handle event).1 }
      work := .busy (course.runner.lifecycle.handle event).2 [] } := by
    simp [advance, runs, work]
  rw [next]
  exact goesTo_performAll terms _ _ [] rfl runs
    (course.runner.lifecycle.handle_schedules_last event)

/-- The session has got from one moment to another, where it waits or has broken off, and what it
did on the way is this step. -/
def Completes (course : Course κ σ) (step : Runner.Step κ (Wires σ)) : Prop :=
  ∃ last, course.GoesTo terms last ∧ last.runner = step.runner ∧
    last.news = course.news ++ step.news ∧ (last.work = .waiting ∨ last.runner.stranded = true)

theorem completes_publish {course : Course κ σ} (work : course.work = .busy [] []) :
    course.Completes terms course.runner.publish := by
  cases stranded : course.runner.stranded with
  | true =>
    have same : course.runner.publish = ⟨course.runner, []⟩ := by
      simp [Runner.publish, stranded]
    rw [same]
    exact ⟨course, GoesTo.refl terms course, rfl, (List.append_nil _).symm, Or.inr stranded⟩
  | false =>
    have next : course.advance terms = { course with
        runner := course.runner.publish.runner
        work := .waiting
        news := course.news ++ course.runner.publish.news } := by
      simp [advance, stranded, work]
    exact ⟨_, GoesTo.step terms (GoesTo.refl terms _), by rw [next], by rw [next],
      Or.inl (by rw [next])⟩

theorem Completes.of_goesTo {course next : Course κ σ} {earlier : List (News κ)}
    {step : Runner.Step κ (Wires σ)} (goes : course.GoesTo terms next)
    (news : next.news = course.news ++ earlier) (completes : next.Completes terms step) :
    course.Completes terms ⟨step.runner, earlier ++ step.news⟩ := by
  obtain ⟨last, further, runner, told, ends⟩ := completes
  refine ⟨last, goes.trans terms further, runner, ?_, ends⟩
  rw [told, news, List.append_assoc]

private theorem completes_quiet {course : Course κ σ} {event : Event}
    (work : course.work = .busy [] [event]) (runs : course.runner.stranded = false)
    (quiet : (course.runner.lead (terms.outside course.now course.time) event).2 = []) :
    course.Completes terms
      ⟨(course.runner.lead (terms.outside course.now course.time) event).1.runner.publish.runner,
        (course.runner.lead (terms.outside course.now course.time) event).1.news ++
          (course.runner.lead
            (terms.outside course.now course.time) event).1.runner.publish.news⟩ := by
  have goes := goesTo_lead terms work runs
  rw [quiet] at goes
  exact Completes.of_goesTo terms goes rfl (completes_publish terms rfl)

/-- An event is processed with everything that it brings about. -/
theorem completes_process {course : Course κ σ} {event : Event}
    (work : course.work = .busy [] [event]) (runs : course.runner.stranded = false) :
    course.Completes terms
      (course.runner.process (terms.outside course.now course.time) event) := by
  rcases Runner.lead_cases (terms.outside course.now course.time) course.runner event runs with
    none | ⟨loss, single, runsOn, quiet⟩
  · have process : course.runner.process (terms.outside course.now course.time) event =
        ⟨(course.runner.lead (terms.outside course.now course.time) event).1.runner.publish.runner,
          (course.runner.lead (terms.outside course.now course.time) event).1.news ++
            (course.runner.lead
              (terms.outside course.now course.time) event).1.runner.publish.news⟩ := by
      unfold Runner.lead at none ⊢
      simp [Runner.process, Runner.drain, Runner.eventsPerStep, none]
    rw [process]
    exact completes_quiet terms work runs none
  · have goes := goesTo_lead terms work runs
    rw [single] at goes
    have completes := Completes.of_goesTo terms goes rfl
      (completes_quiet terms rfl runsOn (quiet _))
    have process : course.runner.process (terms.outside course.now course.time) event =
        ⟨((course.runner.lead (terms.outside course.now course.time) event).1.runner.lead
            (terms.outside course.now course.time) loss).1.runner.publish.runner,
          (course.runner.lead (terms.outside course.now course.time) event).1.news ++
            (((course.runner.lead (terms.outside course.now course.time) event).1.runner.lead
                (terms.outside course.now course.time) loss).1.news ++
              ((course.runner.lead (terms.outside course.now course.time) event).1.runner.lead
                (terms.outside course.now course.time) loss).1.runner.publish.news)⟩ := by
      unfold Runner.lead at single ⊢
      simp [Runner.process, Runner.drain, Runner.eventsPerStep, single]
    rw [process]
    exact completes

theorem completes_begin (now : Instant) (time : Timestamp) (rest : σ) :
    (start terms now time rest : Course κ σ).Completes terms
      ((start terms now time rest : Course κ σ).runner.step (terms.outside now time) .begin) := by
  have begins : (start terms now time rest : Course κ σ).runner.stranded = false := rfl
  unfold Runner.step
  rw [begins]
  exact @completes_process κ σ _ terms (start terms now time rest) .connect rfl begins

private theorem completes_on (course : Course κ σ) (event : Option Event)
    (work : course.work = .on event) (runs : course.runner.stranded = false) :
    course.Completes terms
      (course.runner.processAny (terms.outside course.now course.time) event) := by
  cases event with
  | none => exact ⟨course, GoesTo.refl terms course, rfl, (List.append_nil _).symm, Or.inl work⟩
  | some event => exact completes_process terms work runs

/-- A session that waits takes a whole step if no one else comes between. -/
theorem turn_take_completes {course : Course κ σ} (waits : course.Waits) {choice : Choice}
    {input : Runner.Input} {wires : Wires σ}
    (offered : course.input choice = some (input, wires)) :
    ∃ last, (course.turn terms (.take choice)).GoesTo terms last ∧
      (last.work = .waiting ∨ last.runner.stranded = true) ∧
      last.runner = (Runner.step (terms.outside course.now course.time)
        { course.runner with world := wires } input).runner ∧
      last.news = course.news ++ (Runner.step (terms.outside course.now course.time)
        { course.runner with world := wires } input).news := by
  have runs := (waits_iff.mp waits).2.2
  obtain ⟨idle, lives⟩ := waits
  have attends : course.turn terms (.take choice) = course.attend terms choice := by
    simp [turn, idle, lives]
  rw [attends, Runner.step_eq_respond _ { course.runner with world := wires } runs]
  by_cases sweeps : choice = .sweep
  · subst sweeps
    cases offered
    exact ⟨_, GoesTo.refl terms _, Or.inl idle, rfl, rfl⟩
  · obtain ⟨runner, event, runsOn, attended, responds⟩ :=
      attend_eq_on terms course runs offered sweeps
    rw [attended, responds]
    obtain ⟨last, goes, same, told, ends⟩ :=
      completes_on terms { course with runner, work := .on event } event rfl runsOn
    exact ⟨last, goes, ends, same, told⟩

end Course

end Tether.Session
