import Tether.Proofs.Session.Books
import Tether.Proofs.Session.Endings
import Tether.Proofs.Session.Readiness
import Tether.Proofs.Session.Steps

/-! A session that is busy gets back to waiting, whatever else happens in between: an event leads to
few actions, and of these one at most leads to another event, which leads to none. What a session
leaves behind when it ends are empty books, and a request that waits has then been answered, has
expired or was told that the session is closed. -/

namespace Tether.Session

open Time (Instant Timestamp)

variable {κ σ : Type}

/-- Whether an event says that a connection or an attempt is over. -/
def Event.isLoss : Event → Bool
  | .failed _ => true
  | .closed _ => true
  | _ => false

theorem Event.isLoss_iff {event : Event} :
    event.isLoss = true ↔
      (∃ reason, event = .failed reason) ∨ ∃ frame, event = .closed frame := by
  cases event <;> simp [isLoss]

/-- A bound for how much a session has still to do before it waits. -/
def Work.effort : Work → Nat
  | .waiting => 0
  | .busy actions events =>
    -- A loss leads to five actions at most, none of which provokes another event.
    actions.length + 6 * actions.countP Action.provokes +
      (6 * events.length + 6 * events.countP fun event => !event.isLoss) + 1

theorem Lifecycle.effort_handle (machine : Lifecycle) (event : Event) :
    (Work.busy (machine.handle event).2 []).effort < (Work.busy [] [event]).effort := by
  have loss : machine.onLoss.length + 6 * machine.onLoss.countP Action.provokes < 6 := by
    unfold onLoss
    cases machine.resend <;> simp [Action.provokes]
  simp only [Work.effort, List.length_nil, List.countP_nil, List.length_singleton,
    List.countP_singleton]
  unfold handle
  split
  case h_9 =>
    split
    · simp [Action.provokes, Event.isLoss]
    · simp only
      omega
  case h_10 =>
    simp only
    omega
  case h_15 =>
    simp only [List.length_nil, List.countP_nil]
    omega
  all_goals simp [closeForGood, List.countP_cons, Action.provokes, Event.isLoss]

namespace Course

variable (terms : Terms σ)

/-- A busy session has less to do after each turn of its own. -/
theorem effort_advance {course : Course κ σ} (going : course.runner.stranded = false)
    (busy : course.work ≠ .waiting) :
    (course.advance terms).work.effort < course.work.effort := by
  unfold advance
  simp only [going, Bool.false_eq_true, ↓reduceIte]
  match work : course.work with
  | .waiting => exact absurd work busy
  | .busy (action :: actions) events =>
    simp only [Work.effort, List.length_append, List.countP_append, List.length_cons,
      List.countP_cons]
    have follows :=
      Runner.perform_followUp (terms.outside course.now course.time) course.runner action
    rcases brought :
        (course.runner.perform (terms.outside course.now course.time) action).followUp with
      _ | event
    · simp only [Option.toList_none, List.length_nil, List.countP_nil]
      omega
    · obtain ⟨provokes, loss, _⟩ := follows event brought
      have loses : event.isLoss = true := Event.isLoss_iff.mpr loss
      simp only [Option.toList_some, List.length_singleton, List.countP_singleton, provokes, loses,
        ↓reduceIte, Bool.not_true, Bool.false_eq_true]
      omega
  | .busy [] (event :: events) =>
    have less := course.runner.lifecycle.effort_handle event
    simp only [Work.effort, List.length_nil, List.length_cons, List.countP_nil,
      List.countP_cons] at less ⊢
    omega
  | .busy [] [] => simp [Work.effort]

end Course

/-- What falls again and again, and never rises before the goal, reaches it. -/
theorem exists_of_rank {goal : Nat → Prop} (rank : Nat → Nat) (start : Nat)
    (steady : ∀ moment, start ≤ moment → ¬goal moment → rank (moment + 1) ≤ rank moment)
    (falls : ∀ moment, start ≤ moment →
      ∃ later, moment ≤ later ∧ (goal later ∨ rank (later + 1) < rank later)) :
    ∃ moment, start ≤ moment ∧ goal moment := by
  apply Classical.byContradiction
  intro never
  have unreached (moment : Nat) (after : start ≤ moment) : ¬goal moment :=
    fun reached => never ⟨moment, after, reached⟩
  have descends (moment later : Nat) (after : start ≤ moment) (le : moment ≤ later) :
      rank later ≤ rank moment := by
    induction le with
    | refl => exact Nat.le_refl _
    | @step later le ih =>
      have before : start ≤ later := Nat.le_trans after le
      exact Nat.le_trans (steady later before (unreached later before)) ih
  have bounded (bound : Nat) : ∀ moment, start ≤ moment → bound < rank moment := by
    induction bound with
    | zero =>
      intro moment after
      obtain ⟨later, le, reached | less⟩ := falls moment after
      · exact absurd reached (unreached later (by omega))
      · have := descends moment later after le
        omega
    | succ bound ih =>
      intro moment after
      obtain ⟨later, le, reached | less⟩ := falls moment after
      · exact absurd reached (unreached later (by omega))
      · have := descends moment later after le
        have := ih (later + 1) (by omega)
        omega
  exact Nat.lt_irrefl _ (bounded (rank start) start (Nat.le_refl _))

namespace Core

/-- The books were closed for good, and nothing waits any more. -/
def Torn (core : Core κ) : Prop := core.closed = true ∧ core.registry.pending = []

theorem torn_failPending (core : Core κ) : core.failPending.1.Torn :=
  ⟨rfl, core.registry.pending_rejectAll .closed⟩

variable [DecidableEq κ] (terms : Terms σ)

theorem Torn.after {core : Core κ} (torn : core.Torn) (now : Instant) (time : Timestamp)
    (deed : Deed κ) : (core.after terms now time deed).Torn := by
  obtain ⟨closed, none⟩ := torn
  cases deed with
  | nothing => exact ⟨closed, none⟩
  | submit message caller => simp [Core.after, submit, Torn, closed, none]
  | notify message =>
    rcases core.after_notify_cases terms now time message with same | ⟨_, frame, same⟩
    · rw [same]
      exact ⟨closed, none⟩
    · rw [same]
      exact ⟨closed, none⟩
  | abandon caller => simp [Core.after, Torn, Registry.abandon, closed, none]
  | ship line count => simp [Core.after, Torn, ship, Registry.markSentAll, closed, none]
  | requeue => simp [Core.after, Torn, requeueUnanswered, Registry.markUnsent, closed, none]
  | dispatch frame =>
    simp only [Core.after]
    rcases core.dispatch_cases terms.signing frame with
      ⟨same, _⟩ | ⟨request, _, _, found, _⟩
    · rw [same]
      exact ⟨closed, none⟩
    · have waits := (Registry.find?_eq_some found).1
      rw [none] at waits
      cases waits
  | sweep =>
    refine ⟨closed, ?_⟩
    change (core.sweep now).1.registry.pending = []
    rw [pending_sweep, none, List.filter_nil]
  | teardown => exact core.torn_failPending

end Core

namespace Lifecycle

/-- A session that comes to its end fails what waits. -/
theorem handle_tears (machine : Lifecycle) (event : Event)
    (ends : (machine.handle event).1.state = .closing ∨ (machine.handle event).1.state = .closed) :
    .failPending ∈ (machine.handle event).2 ∨ machine.state = .closing ∨
      machine.state = .closed := by
  obtain ⟨state, backoff, resend, failures⟩ := machine
  cases state with
  | disconnected => cases event <;> simp_all [handle]
  | connecting => cases event <;> simp_all [handle, failing]
  | connected =>
    cases event with
    | closed frame =>
      simp only [handle] at ends ⊢
      split
      · simp
      · rename_i abnormal
        simp [abnormal, failing] at ends
    | _ => simp_all [handle, failing]
  | closing => simp
  | closed => simp

/-- A connection is let go only when it is lost or the session is over. -/
theorem state_of_drops (machine : Lifecycle) (event : Event)
    (drops : .dropTransport ∈ (machine.handle event).2) :
    (machine.handle event).1.state = .disconnected ∨ (machine.handle event).1.state = .closed := by
  obtain ⟨state, backoff, resend, failures⟩ := machine
  cases state with
  | connected =>
    cases event with
    | closed frame =>
      simp only [handle]
      split
      · exact Or.inr rfl
      · exact Or.inl rfl
    | _ => simp_all [handle, failing, closeForGood]
  | _ => cases event <;> simp_all [handle, failing, closeForGood]

/-- A delay is asked for only when the session is left without connection. -/
theorem state_of_schedules (machine : Lifecycle) (event : Event) {delay : Time.Interval}
    (schedules : .scheduleReconnect delay ∈ (machine.handle event).2) :
    (machine.handle event).1.state = .disconnected := by
  obtain ⟨state, backoff, resend, failures⟩ := machine
  cases state with
  | connected =>
    cases event with
    | closed frame =>
      simp only [handle] at schedules ⊢
      split
      · rename_i normal
        simp [normal] at schedules
      · rfl
    | _ => simp_all [handle, failing, closeForGood]
  | _ => cases event <;> simp_all [handle, failing, closeForGood]

end Lifecycle

namespace Course

/-- Only a session without connection waits for a delay or breaks off, and one that ends has closed
its books or is about to. -/
structure Settled (course : Course κ σ) : Prop where
  delays : ∀ delay, .scheduleReconnect delay ∈ course.work.actions → course.state = .disconnected
  drops : .dropTransport ∈ course.work.actions →
    course.state = .disconnected ∨ course.state = .closed
  stranded : course.runner.stranded = true → course.state = .disconnected
  torn : course.state = .closing ∨ course.state = .closed →
    .failPending ∈ course.work.actions ∨ course.core.Torn

theorem settled_start (terms : Terms σ) (now : Instant) (time : Timestamp) (rest : σ) :
    (start terms now time rest : Course κ σ).Settled where
  delays _ _ := rfl
  drops _ := Or.inl rfl
  stranded _ := rfl
  torn ends := by simp [start, state, Runner.start, Lifecycle.start] at ends

variable (terms : Terms σ)

theorem stranded_attend (course : Course κ σ) (choice : Choice) :
    (course.attend terms choice).runner.stranded = course.runner.stranded := by
  cases choice with
  | flush => exact Runner.stranded_flush (terms.outside course.now course.time) course.runner
  | disconnect => rfl
  | report =>
    simp only [attend]
    split
    · rfl
    · exact Runner.stranded_receive _ _ _
  | delay =>
    simp only [attend]
    split <;> rfl
  | sweep => rfl

variable [DecidableEq κ]

theorem stranded_turn (course : Course κ σ) {next : Turn κ σ} (other : next ≠ .proceed) :
    (course.turn terms next).runner.stranded = course.runner.stranded := by
  have ended (opened : List Transport.ConnectionId) (report : TransportEvent) :
      (course.endAttempt opened report).runner.stranded = course.runner.stranded := by
    rcases course.endAttempt_cases opened report with same | ⟨_, ends⟩
    · rw [same]
    · rw [ends]
      rfl
  have came (id : Transport.ConnectionId) (last : Bool) (report : TransportEvent) :
      (course.read id last report).runner.stranded = course.runner.stranded := by
    rcases course.read_cases id last report with same | ⟨_, reads⟩
    · rw [same]
    · rw [reads]
      rfl
  cases next with
  | proceed => exact absurd rfl other
  | take choice =>
    rcases course.turn_take_cases terms choice with same | ⟨_, attends⟩
    · rw [same]
    · rw [attends, stranded_attend]
  | notify message =>
    simp only [turn]
    split <;> rfl
  | openLine id =>
    simp only [turn]
    split
    · rfl
    · exact ended _ _
  | refuse reason => exact ended _ _
  | arrive id frame => exact came id _ _
  | hangUp id frame => exact came id _ _
  | breakLine id reason => exact came id _ _
  | _ => rfl

omit [DecidableEq κ] in
/-- A session settles with each action. To fail what waits is to close the books. -/
private theorem Settled.action {course : Course κ σ} (settled : course.Settled)
    (torn : course.core.Torn → (course.advance terms).core.Torn) {action : Action}
    {actions : List Action} {events : List Event}
    (work : course.work = .busy (action :: actions) events)
    (acts : course.advance terms = { course with
      runner := (course.runner.perform (terms.outside course.now course.time) action).runner
      work := .busy actions (events ++
        (course.runner.perform (terms.outside course.now course.time) action).followUp.toList)
      news := course.news ++
        (course.runner.perform (terms.outside course.now course.time) action).news }) :
    (course.advance terms).Settled := by
  have state : (course.advance terms).state = course.state := by
    rw [acts]
    exact congrArg Lifecycle.state
      (Runner.perform_leaves terms course.now course.time course.runner action).1
  have within {other : Action} (member : other ∈ (course.advance terms).work.actions) :
      other ∈ course.work.actions := by
    rw [acts] at member
    rw [work]
    exact List.mem_cons_of_mem _ member
  refine ⟨?_, ?_, ?_, ?_⟩
  · rw [state]
    exact fun delay schedules => settled.delays delay (within schedules)
  · rw [state]
    exact fun drops => settled.drops (within drops)
  · rw [state]
    intro broken
    by_cases asks : ∃ delay, action = .scheduleReconnect delay
    · obtain ⟨delay, rfl⟩ := asks
      exact settled.delays delay (by rw [work]; exact List.mem_cons_self)
    · rw [acts] at broken
      apply settled.stranded
      rwa [Runner.stranded_perform _ _ fun delay same => asks ⟨delay, same⟩] at broken
  · rw [state]
    intro ends
    rcases settled.torn ends with fails | still
    · rw [work] at fails
      rcases List.mem_cons.mp fails with rfl | later
      · right
        rw [acts]
        exact course.core.torn_failPending
      · left
        rw [acts]
        exact later
    · exact Or.inr (torn still)

omit [DecidableEq κ] in
private theorem Settled.event {course : Course κ σ} (settled : course.Settled)
    (torn : course.core.Torn → (course.advance terms).core.Torn) {event : Event}
    {events : List Event} (work : course.work = .busy [] (event :: events))
    (handles : course.advance terms = { course with
      runner := { course.runner with lifecycle := (course.runner.lifecycle.handle event).1 }
      work := .busy (course.runner.lifecycle.handle event).2 events }) :
    (course.advance terms).Settled := by
  rw [handles] at torn ⊢
  refine ⟨?_, ?_, ?_, ?_⟩
  · exact fun delay schedules => course.runner.lifecycle.state_of_schedules event schedules
  · exact fun drops => course.runner.lifecycle.state_of_drops event drops
  · intro broken
    have same : course.advance terms = course := if_pos broken
    rw [← handles, same]
    exact settled.stranded broken
  · intro ends
    rcases course.runner.lifecycle.handle_tears event ends with fails | before
    · exact Or.inl fails
    · rcases settled.torn before with fails | still
      · rw [work] at fails
        cases fails
      · exact Or.inr (torn still)

private theorem Settled.advance {course : Course κ σ} (settled : course.Settled) :
    (course.turn terms .proceed).Settled := by
  have torn (still : course.core.Torn) : (course.turn terms .proceed).core.Torn := by
    rw [(turn_does terms course .proceed).1]
    exact still.after terms course.now course.time _
  simp only [turn] at torn ⊢
  rcases course.advance_cases terms with
    same | ⟨action, actions, events, work, _, acts⟩ | ⟨event, events, work, handles⟩ |
      ⟨_, work, publishes⟩
  · rw [same]
    exact settled
  · exact settled.action terms torn work acts
  · exact settled.event terms torn work handles
  · rw [publishes] at torn ⊢
    refine ⟨by simp [Work.actions], by simp [Work.actions], settled.stranded, ?_⟩
    intro ends
    rcases settled.torn ends with fails | still
    · rw [work] at fails
      cases fails
    · exact Or.inr (torn still)

theorem Settled.turn {course : Course κ σ} (settled : course.Settled) (next : Turn κ σ) :
    (course.turn terms next).Settled := by
  by_cases own : next = .proceed
  · rw [own]
    exact settled.advance terms
  · have broken := course.stranded_turn terms own
    have torn (still : course.core.Torn) : (course.turn terms next).core.Torn := by
      rw [(turn_does terms course next).1]
      exact still.after terms course.now course.time _
    rcases course.turn_cases terms next with
      ⟨work, lifecycle, _, _⟩ | ⟨choice, _, ⟨idle, _⟩, attends⟩ | ⟨same, _⟩
    · have state : (course.turn terms next).state = course.state :=
        congrArg Lifecycle.state lifecycle
      refine ⟨?_, ?_, ?_, ?_⟩
      · rw [work, state]
        exact settled.delays
      · rw [work, state]
        exact settled.drops
      · rw [broken, state]
        exact settled.stranded
      · rw [work, state]
        exact fun ends => (settled.torn ends).imp_right torn
    · obtain ⟨lifecycle, actions, _⟩ := attend_leaves terms idle choice
      rw [← attends] at lifecycle actions
      have state : (course.turn terms next).state = course.state :=
        congrArg Lifecycle.state lifecycle
      refine ⟨by simp [actions], by simp [actions], ?_, ?_⟩
      · rw [broken, state]
        exact settled.stranded
      · rw [state]
        intro ends
        rcases settled.torn ends with fails | still
        · rw [idle] at fails
          cases fails
        · exact Or.inr (torn still)
    · exact absurd same own

theorem settled_play (now : Instant) (time : Timestamp) (rest : σ) (turns : List (Turn κ σ)) :
    ((start terms now time rest).play terms turns).Settled :=
  play_keeps terms Settled (fun _ next settled => settled.turn terms next) _ turns
    (settled_start terms now time rest)

end Course

/-- Whether a deed ends a request: a frame under its id is handed out, its time is over, or
everything that waits is failed. -/
def Deed.Ends (now : Instant) (request : Pending κ) : Deed κ → Prop
  | .dispatch frame => Envelope.requestIdOf frame = request.id
  | .sweep => request.isStale now = true
  | .teardown => True
  | _ => False

/-- A request that waits still, perhaps without its caller and perhaps sent once more. -/
def Pending.Lasts (request later : Pending κ) : Prop :=
  later = { request with awaited := later.awaited, sentAt := later.sentAt }

theorem Pending.Lasts.trans {request next later : Pending κ} (first : request.Lasts next)
    (second : next.Lasts later) : request.Lasts later := by
  unfold Lasts at *
  rw [first] at second
  exact second

section

variable {core : Core κ} {request : Pending κ}

private theorem Core.Orderly.mem_submit (orderly : core.Orderly)
    (waits : request ∈ core.registry.pending) (signing : Signing) (settings : Settings)
    (now : Instant) (message : Message.ClientMessage) (caller : κ) :
    request ∈ (core.submit signing settings now message caller).2.registry.pending := by
  rcases core.submit_cases signing settings now message caller with
    ⟨id, taken, deadline, frame, allocated, _, admits⟩ | same | ⟨id, taken, allocated, same | same⟩
  · obtain ⟨_, rfl⟩ := Registry.allocate_eq_ok allocated
    rw [admits]
    exact List.mem_append_left _ waits
  · rw [same]
    exact waits
  · obtain ⟨_, rfl⟩ := Registry.allocate_eq_ok allocated
    rw [same]
    exact waits
  · have fresh := (Registry.allocate_fresh allocated).2
    obtain ⟨_, rfl⟩ := Registry.allocate_eq_ok allocated
    rw [same]
    -- The id that is given back was not taken before, so nobody waits under it.
    refine List.mem_filter.mpr ⟨waits, decide_eq_true ?_⟩
    rintro rfl
    exact fresh (orderly.registry.taken request waits)

/-- A frame ends the request under its id and no other. -/
private theorem Core.lasts_dispatch (waits : request ∈ core.registry.pending) (signing : Signing)
    (frame : Bytes) :
    request ∈ (core.dispatch signing frame).core.registry.pending ∨
      Envelope.requestIdOf frame = request.id ∧
        (core.dispatch signing frame).core.registry.find? request.id = none := by
  rcases core.dispatch_cases signing frame with ⟨kept, _⟩ | ⟨_, _, _, _, freed, _⟩
  · left
    rw [kept]
    exact waits
  · rw [freed]
    by_cases own : Envelope.requestIdOf frame = request.id
    · exact Or.inr ⟨own, by rw [own, Registry.find?_free_self]⟩
    · exact Or.inl (List.mem_filter.mpr ⟨waits, decide_eq_true fun clash => own clash.symm⟩)

/-- A sweep ends the requests whose time is over and no others. -/
private theorem Core.Orderly.lasts_sweep (orderly : core.Orderly)
    (waits : request ∈ core.registry.pending) (now : Instant) :
    request ∈ (core.sweep now).1.registry.pending ∨
      request.isStale now = true ∧ (core.sweep now).1.registry.find? request.id = none := by
  have tidy : core.registry.Tidy := ⟨orderly.registry.taken, orderly.registry.distinct⟩
  by_cases stale : request.id ∈ core.registry.staleIds now
  · right
    refine ⟨(tidy.mem_staleIds now waits).mp stale, Registry.find?_eq_none.mpr ?_⟩
    intro other member clash
    rw [Core.pending_sweep] at member
    exact of_decide_eq_true (List.mem_filter.mp member).2 (clash ▸ stale)
  · left
    rw [Core.pending_sweep]
    exact List.mem_filter.mpr ⟨waits, decide_eq_true stale⟩

/-- A request waits on after a deed, or the deed ends it and its id has nothing under it. -/
theorem Core.Orderly.lasts_after [DecidableEq κ] (terms : Terms σ) (orderly : core.Orderly)
    (now : Instant) (time : Timestamp) (deed : Deed κ) (waits : request ∈ core.registry.pending) :
    (∃ later ∈ (core.after terms now time deed).registry.pending, request.Lasts later ∧
        (later.awaited = true ↔ request.awaited = true ∧ deed ≠ .abandon request.caller)) ∨
      deed.Ends now request ∧
        (core.after terms now time deed).registry.find? request.id = none := by
  have same {next : Core κ} (other : deed ≠ .abandon request.caller)
      (stays : request ∈ next.registry.pending) :
      ∃ later ∈ next.registry.pending, request.Lasts later ∧
        (later.awaited = true ↔ request.awaited = true ∧ deed ≠ .abandon request.caller) :=
    ⟨request, stays, rfl, by simp [other]⟩
  cases deed with
  | nothing => exact Or.inl (same (by simp) waits)
  | submit message caller =>
    left
    apply same (by simp)
    exact orderly.mem_submit waits terms.signing terms.settings now message caller
  | notify message =>
    left
    apply same (by simp)
    rw [registry_after_notify]
    exact waits
  | abandon caller =>
    left
    refine ⟨_, List.mem_map_of_mem waits, ?_, ?_⟩
    · split <;> rfl
    · by_cases own : request.caller = caller
      · simp [own]
      · simp [own, Ne.symm own]
  | ship line count =>
    left
    refine ⟨_, List.mem_map_of_mem waits, ?_, ?_⟩
    · split <;> rfl
    · split <;> simp
  | requeue =>
    left
    exact ⟨_, List.mem_map_of_mem waits, rfl, by simp⟩
  | dispatch frame =>
    exact (core.lasts_dispatch waits terms.signing frame).imp_left (same (by simp))
  | sweep => exact (orderly.lasts_sweep waits now).imp_left (same (by simp))
  | teardown =>
    right
    refine ⟨trivial, Registry.find?_eq_none.mpr ?_⟩
    simp [Core.after, core.torn_failPending.2]

end

theorem Course.news_of_teardown [DecidableEq κ] (terms : Terms σ) {course : Course κ σ}
    {next : Turn κ σ} (tears : course.deed terms next = .teardown) :
    (course.turn terms next).news = course.news ++
      (course.core.registry.pending.flatMap fun request =>
        request.deliver (.error .closed)).map News.delivery := by
  rcases course.deed_cases terms next with
    ⟨action, actions, events, rfl, going, work, same⟩ | ⟨_, other, _⟩
  · rw [same] at tears
    cases action with
    | failPending =>
      simp only [turn, advance, going, work]
      rfl
    | flushQueue =>
      simp only [Runner.deed, Runner.flushDeed] at tears
      split at tears <;> cases tears
    | _ => cases tears
  · exact absurd tears other

end Tether.Session
