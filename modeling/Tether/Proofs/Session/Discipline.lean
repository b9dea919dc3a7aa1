import Mathlib.Data.List.Basic
import Tether.Proofs.Session.Hearing

namespace Tether.Session

namespace Lifecycle

/-- What an event can make of a machine, and what is asked for with it. -/
inductive Passes (machine : Lifecycle) : List Action → Lifecycle → Prop where
  | stays : Passes machine [] machine
  | dials (state : machine.state = .disconnected) :
      Passes machine [.openTransport] { machine with state := .connecting }
  | connects (state : machine.state = .connecting) :
      Passes machine [.flushQueue] { machine with state := .connected, failures := 0 }
  | fails (state : machine.state = .connecting) :
      Passes machine [.dropTransport, .scheduleReconnect machine.delay] machine.failing
  | serves (state : machine.state = .connected) (frame : Bytes) :
      Passes machine [.dispatch frame] machine
  | loses (state : machine.state = .connected) : Passes machine machine.onLoss machine.failing
  /-- The other side ends the session. -/
  | ends (state : machine.state = .connected) :
      Passes machine [.dropTransport, .failPending] { machine with state := .closed }
  | leavesWaiting (state : machine.state = .disconnected) :
      Passes machine [.cancelReconnect, .failPending] { machine with state := .closed }
  | leavesDialing (state : machine.state = .connecting) :
      Passes machine [.cancelReconnect, .failPending] { machine with state := .closing }
  | leavesOpen (state : machine.state = .connected) :
      Passes machine [.cancelReconnect, closeForGood, .failPending]
        { machine with state := .closing }
  /-- An attempt succeeds after all. -/
  | opensLate (state : machine.state = .closing) : Passes machine [closeForGood] machine
  | parts (state : machine.state = .closing) :
      Passes machine [.dropTransport] { machine with state := .closed }

theorem passes_handle (machine : Lifecycle) (event : Event) :
    machine.Passes (machine.handle event).2 (machine.handle event).1 := by
  unfold handle
  split
  case h_1 state => exact .dials state
  case h_2 state => exact .dials state
  case h_3 state => exact .leavesWaiting state
  case h_4 state => exact .connects state
  case h_5 state => exact .fails state
  case h_6 state => exact .fails state
  case h_7 state => exact .leavesDialing state
  case h_8 frame state => exact .serves state frame
  case h_9 state =>
    split
    · exact .ends state
    · exact .loses state
  case h_10 state => exact .loses state
  case h_11 state => exact .leavesOpen state
  case h_12 state => exact .opensLate state
  case h_13 state => exact .parts state
  case h_14 state => exact .parts state
  case h_15 => exact .stays

/-- What holds at first, and is kept by whatever an event makes of the machine, holds in the end. -/
theorem run_keeps (kept : Lifecycle → List Action → Prop) (machine : Lifecycle)
    (first : kept machine [])
    (later : ∀ machine asked actions next, kept machine asked → machine.Passes actions next →
      kept next (asked ++ actions)) (events : List Event) :
    kept (machine.run events).1 (machine.run events).2.flatten := by
  -- What was asked for before must be general: the induction is on the events that are left.
  suffices onward : ∀ asked, kept machine asked →
      kept (machine.run events).1 (asked ++ (machine.run events).2.flatten) from
    onward [] first
  clear first
  induction events generalizing machine with
  | nil =>
    intro asked holds
    simpa [run] using holds
  | cons event events ih =>
    intro asked holds
    have next := later machine asked _ _ holds (machine.passes_handle event)
    simpa [run] using ih (machine.handle event).1 _ next

theorem run_take (machine : Lifecycle) (events : List Event) (count : Nat) :
    (machine.run events).2.take count = (machine.run (events.take count)).2 := by
  induction events generalizing machine count with
  | nil => simp [run]
  | cons event events ih =>
    cases count with
    | zero => rfl
    | succ count => simp [run, ih]

theorem run_getElem? (machine : Lifecycle) (events : List Event) (index : Nat) :
    (machine.run events).2[index]? = events[index]?.map fun event =>
      ((machine.run (events.take index)).1.handle event).2 := by
  induction events generalizing machine index with
  | nil => simp [run]
  | cons event events ih =>
    cases index with
    | zero => simp [run]
    | succ index => simp [run, ih]

theorem resend_passes {machine next : Lifecycle} {actions : List Action}
    (passes : machine.Passes actions next) : next.resend = machine.resend := by
  cases passes <;> rfl

/-- What is asked for on a connection: what waits is sent, then frames are handed out. -/
def service (frames : List Bytes) : List Action := .flushQueue :: frames.map .dispatch

/-- What lies between an attempt and the next. A connection may have been opened and used. Then it
is let go, requests go back into the outbox if it had been open and they are to be sent again, and
a delay is started. -/
def Interlude (resend : Bool) (between : List Action) : Prop :=
  ∃ served back delay,
    between = served ++ .dropTransport :: (back ++ [.scheduleReconnect delay]) ∧
    (∀ action ∈ served, action = .flushQueue ∨ ∃ frame, action = .dispatch frame) ∧
    back = if resend = true ∧ .flushQueue ∈ between then [.requeueUnanswered] else []

theorem Interlude.openTransport_notMem {resend : Bool} {between : List Action}
    (interlude : Interlude resend between) : .openTransport ∉ between := by
  obtain ⟨served, back, delay, rfl, serves, resent⟩ := interlude
  intro member
  rcases List.mem_append.mp member with early | late
  · rcases serves _ early with same | ⟨_, same⟩
    · cases same
    · cases same
  · rw [resent] at late
    split at late <;> simp at late

theorem interlude_of_refusal (resend : Bool) (delay : Time.Interval) :
    Interlude resend [.dropTransport, .scheduleReconnect delay] :=
  ⟨[], [], delay, rfl, by simp, by simp⟩

theorem interlude_of_loss (machine : Lifecycle) (frames : List Bytes) :
    Interlude machine.resend (service frames ++ machine.onLoss) := by
  refine ⟨service frames, _, machine.delay, rfl, ?_, ?_⟩
  · intro action member
    rcases List.mem_cons.mp member with rfl | later
    · exact Or.inl rfl
    · obtain ⟨frame, _, rfl⟩ := List.mem_map.mp later
      exact Or.inr ⟨frame, rfl⟩
  · simp [service]

/-- Whatever lies between two attempts with none between them is an interlude. -/
def Spaced (resend : Bool) (asked : List Action) : Prop :=
  ∀ before between after,
    asked = before ++ .openTransport :: (between ++ .openTransport :: after) →
    .openTransport ∉ between → Interlude resend between

private theorem last_attempt_unique {before earlier between other : List Action}
    (same : before ++ .openTransport :: between = earlier ++ .openTransport :: other)
    (last : .openTransport ∉ between) (lastToo : .openTransport ∉ other) : between = other := by
  rcases List.append_eq_append_iff.mp same with ⟨more, _, rest⟩ | ⟨more, _, rest⟩
  · cases more with
    | nil => exact (List.cons.inj rest).2
    | cons action more =>
      have inside := (List.cons.inj rest).2
      exact absurd (inside ▸ by simp) last
  · cases more with
    | nil => exact (List.cons.inj rest).2.symm
    | cons action more =>
      have inside := (List.cons.inj rest).2
      exact absurd (inside ▸ by simp) lastToo

variable {resend : Bool} {asked : List Action}

theorem Spaced.append (spaced : Spaced resend asked) {actions : List Action}
    (none : .openTransport ∉ actions) : Spaced resend (asked ++ actions) := by
  intro before between after split alone
  -- The second attempt of a pair is among what was asked for before, since none is added.
  rw [← List.cons_append, ← List.append_assoc] at split
  rcases List.append_eq_append_iff.mp split with ⟨more, _, rest⟩ | ⟨more, earlier, rest⟩
  · exact absurd (rest ▸ by simp) none
  · cases more with
    | nil =>
      rw [List.nil_append] at rest
      exact absurd (rest ▸ List.mem_cons_self) none
    | cons action more =>
      obtain ⟨rfl, _⟩ := List.cons.inj rest
      refine spaced before between more ?_ alone
      rw [earlier, List.append_assoc, List.cons_append]

theorem Spaced.dial (spaced : Spaced resend asked)
    (ready : .openTransport ∉ asked ∨ ∃ before between,
      asked = before ++ .openTransport :: between ∧ Interlude resend between) :
    Spaced resend (asked ++ [.openTransport]) := by
  intro before between after split alone
  -- The new attempt is the second of a pair, or it comes after one.
  rw [← List.cons_append, ← List.append_assoc] at split
  rcases List.eq_nil_or_concat after with rfl | ⟨after, action, rfl⟩
  · obtain ⟨same, _⟩ := List.append_inj' split rfl
    rcases ready with first | ⟨earlier, other, last, interlude⟩
    · exact absurd (same ▸ by simp) first
    · rw [last_attempt_unique (same.symm.trans last) alone interlude.openTransport_notMem]
      exact interlude
  · rw [List.concat_eq_append, ← List.cons_append, ← List.append_assoc] at split
    obtain ⟨same, _⟩ := List.append_inj' split rfl
    refine spaced before between after ?_ alone
    rw [same, List.append_assoc, List.cons_append]

/-- What has been asked for since the last attempt, by the state that the machine is in. -/
def Leg (machine : Lifecycle) (asked : List Action) : Prop :=
  match machine.state with
  | .disconnected => .openTransport ∉ asked ∨ ∃ before between,
      asked = before ++ .openTransport :: between ∧ Interlude machine.resend between
  | .connecting => ∃ before, asked = before ++ [.openTransport]
  | .connected => ∃ before frames, asked = before ++ .openTransport :: service frames
  | .closing => True
  | .closed => True

/-- What a machine has asked for is in order. -/
structure Disciplined (machine : Lifecycle) (asked : List Action) : Prop where
  leg : machine.Leg asked
  spaced : Spaced machine.resend asked
  requeues : machine.resend = false → .requeueUnanswered ∉ asked

theorem disciplined_start (backoff : Backoff) (resend : Bool) :
    (start backoff resend).Disciplined [] where
  leg := Or.inl List.not_mem_nil
  spaced := by
    intro before between after split
    simp at split
  requeues _ := List.not_mem_nil

theorem Disciplined.passes {machine next : Lifecycle} {asked actions : List Action}
    (disciplined : machine.Disciplined asked) (passes : machine.Passes actions next) :
    next.Disciplined (asked ++ actions) := by
  obtain ⟨leg, spaced, requeues⟩ := disciplined
  have resend := resend_passes passes
  refine ⟨?_, ?_, ?_⟩
  · cases passes with
    | stays => simpa using leg
    | dials => exact ⟨asked, rfl⟩
    | connects state =>
      simp only [Leg, state] at leg
      obtain ⟨before, rfl⟩ := leg
      exact ⟨before, [], by simp [service]⟩
    | fails state =>
      simp only [Leg, state] at leg
      obtain ⟨before, rfl⟩ := leg
      exact Or.inr ⟨before, _, by simp, interlude_of_refusal _ machine.delay⟩
    | serves state frame =>
      simp only [Leg, state] at leg ⊢
      obtain ⟨before, frames, rfl⟩ := leg
      exact ⟨before, frames ++ [frame], by simp [service]⟩
    | loses state =>
      simp only [Leg, state] at leg
      obtain ⟨before, frames, rfl⟩ := leg
      exact Or.inr ⟨before, _, by simp, interlude_of_loss machine frames⟩
    | ends => trivial
    | leavesWaiting => trivial
    | leavesDialing => trivial
    | leavesOpen => trivial
    | opensLate state => simp only [Leg, state]
    | parts => trivial
  · rw [resend]
    cases passes with
    | dials state =>
      simp only [Leg, state] at leg
      exact spaced.dial leg
    | loses => exact spaced.append (by cases machine.resend <;> simp [onLoss])
    | _ => exact spaced.append (by simp [closeForGood])
  · rw [resend]
    intro off member
    refine requeues off ((List.mem_append.mp member).resolve_right ?_)
    cases passes with
    | loses => simp [onLoss, off]
    | _ => simp [closeForGood]

theorem disciplined_run (backoff : Backoff) (resend : Bool) (events : List Event) :
    ((start backoff resend).run events).1.Disciplined
      ((start backoff resend).run events).2.flatten :=
  run_keeps Disciplined (start backoff resend) (disciplined_start backoff resend)
    (fun _ _ _ _ disciplined passes => disciplined.passes passes) events

theorem resend_run (machine : Lifecycle) (events : List Event) :
    (machine.run events).1.resend = machine.resend :=
  run_keeps (fun later _ => later.resend = machine.resend) machine rfl
    (fun _ _ _ _ same passes => (resend_passes passes).trans same) events

/-- Whatever the events are, what is asked for is in order. Between two successive attempts a
connection may be opened and used, then it is let go, once, and after that one delay is started.
Between these two, requests are put back once if the connection had been open and they are to be
sent again, and never otherwise. A frame is handed out alone, by the event of its arrival, and
after a connection was opened that was neither let go nor closed since. -/
theorem attempts_take_turns (backoff : Backoff) (resend : Bool) (events : List Event) :
    let steps := ((start backoff resend).run events).2
    Spaced resend steps.flatten ∧
    (resend = false → .requeueUnanswered ∉ steps.flatten) ∧
    ∀ index actions frame, steps[index]? = some actions → .dispatch frame ∈ actions →
      events[index]? = some (.message frame) ∧ actions = [.dispatch frame] ∧
        ∃ before after, (steps.take index).flatten = before ++ .flushQueue :: after ∧
          ∀ action ∈ after, ∃ other, action = .dispatch other := by
  intro steps
  obtain ⟨_, spaced, requeues⟩ := disciplined_run backoff resend events
  rw [resend_run] at spaced requeues
  refine ⟨spaced, requeues, ?_⟩
  intro index actions frame there dispatches
  rw [run_getElem?] at there
  obtain ⟨event, happened, rfl⟩ := Option.map_eq_some_iff.mp there
  obtain ⟨connected, rfl, same⟩ := handle_dispatch dispatches
  refine ⟨happened, congrArg Prod.snd same, ?_⟩
  have leg := (disciplined_run backoff resend (events.take index)).leg
  simp only [Leg, connected] at leg
  obtain ⟨before, frames, asked⟩ := leg
  refine ⟨before ++ [.openTransport], frames.map .dispatch, ?_, ?_⟩
  · rw [run_take, asked]
    simp [service]
  · intro action member
    obtain ⟨other, _, rfl⟩ := List.mem_map.mp member
    exact ⟨other, rfl⟩

/-- A connection is opened, used and lost, and the next attempt is made. -/
def mishap : List Event :=
  [.connect, .opened, .message [0, 0, 0], .failed "reset", .delayElapsed]

/-- Its frame was handed out on an open connection, and what was sent is put back in between. -/
theorem attempts_take_turns_mishap :
    let steps := ((start .standard true).run mishap).2
    let between := [.flushQueue, .dispatch [0, 0, 0], .dropTransport, .requeueUnanswered,
      .scheduleReconnect (.ofMillis 300)]
    steps.flatten = .openTransport :: (between ++ [.openTransport]) ∧ Interlude true between ∧
      mishap[2]? = some (.message [0, 0, 0]) ∧
      ∃ before after, (steps.take 2).flatten = before ++ .flushQueue :: after ∧
        ∀ action ∈ after, ∃ other, action = .dispatch other := by
  intro steps between
  have asked : steps.flatten = [] ++ .openTransport :: (between ++ [.openTransport]) := rfl
  have step : steps[2]? = some [.dispatch [0, 0, 0]] := rfl
  obtain ⟨spaced, _, served⟩ := attempts_take_turns .standard true mishap
  obtain ⟨happened, _, since⟩ := served 2 _ [0, 0, 0] step List.mem_cons_self
  exact ⟨asked, spaced [] between [] asked (by decide), happened, since⟩

/-- Whether a machine is at the end of its session, or on the way there. -/
def IsEnding (machine : Lifecycle) : Prop := machine.state = .closing ∨ machine.state = .closed

/-- A session has been given up once, and nothing was asked for since but to close the connection
and to let go of it. -/
def GivenUp (asked : List Action) : Prop :=
  ∃ before after, asked = before ++ .failPending :: after ∧ .failPending ∉ before ∧
    ∀ action ∈ after, action = closeForGood ∨ action = .dropTransport

namespace GivenUp

variable {asked : List Action}

theorem append (given : GivenUp asked) {actions : List Action}
    (last : ∀ action ∈ actions, action = closeForGood ∨ action = .dropTransport) :
    GivenUp (asked ++ actions) := by
  obtain ⟨before, after, rfl, first, since⟩ := given
  refine ⟨before, after ++ actions, by simp, first, ?_⟩
  intro action member
  exact (List.mem_append.mp member).elim (since action) (last action)

/-- It is given up when that is asked for the first time, as the last thing of a step. -/
theorem of_step (first : .failPending ∉ asked) {actions : List Action}
    (none : .failPending ∉ actions) : GivenUp (asked ++ (actions ++ [.failPending])) :=
  ⟨asked ++ actions, [], by simp, by simp [first, none], by simp⟩

theorem mem (given : GivenUp asked) : .failPending ∈ asked := by
  obtain ⟨before, after, rfl, _⟩ := given
  simp

theorem notMem_after {after : List Action}
    (since : ∀ action ∈ after, action = closeForGood ∨ action = .dropTransport) :
    .failPending ∉ after := by
  intro member
  rcases since _ member with same | same
  · cases same
  · cases same

theorem count (given : GivenUp asked) : asked.count .failPending = 1 := by
  obtain ⟨before, after, rfl, first, since⟩ := given
  rw [List.count_append, List.count_cons_self, List.count_eq_zero_of_not_mem first,
    List.count_eq_zero_of_not_mem (notMem_after since)]

/-- Wherever it was given up, that was the one time. -/
theorem since (given : GivenUp asked) {before after : List Action}
    (split : asked = before ++ .failPending :: after) :
    ∀ action ∈ after, action = closeForGood ∨ action = .dropTransport := by
  obtain ⟨earlier, later, rfl, first, since⟩ := given
  obtain ⟨_, _, rfl⟩ :=
    (List.append_cons_inj_of_notMem first (notMem_after since)).mp split
  exact since

end GivenUp

/-- A session is given up exactly when its machine is on the way to the end. -/
structure Committed (machine : Lifecycle) (asked : List Action) : Prop where
  ending : machine.IsEnding → GivenUp asked
  going : ¬machine.IsEnding → .failPending ∉ asked

namespace Committed

variable {machine next : Lifecycle} {asked actions : List Action}

private theorem goes_on (committed : machine.Committed asked) (before : ¬machine.IsEnding)
    (after : ¬next.IsEnding) (none : .failPending ∉ actions) : next.Committed (asked ++ actions) :=
  ⟨fun ending => absurd ending after, fun _ => by simp [committed.going before, none]⟩

private theorem gives_up (committed : machine.Committed asked) (before : ¬machine.IsEnding)
    (after : next.IsEnding) (actions : List Action) (none : .failPending ∉ actions) :
    next.Committed (asked ++ (actions ++ [.failPending])) :=
  ⟨fun _ => .of_step (committed.going before) none, fun going => absurd after going⟩

private theorem winds_up (committed : machine.Committed asked) (before : machine.IsEnding)
    (after : next.IsEnding)
    (last : ∀ action ∈ actions, action = closeForGood ∨ action = .dropTransport) :
    next.Committed (asked ++ actions) :=
  ⟨fun _ => (committed.ending before).append last, fun going => absurd after going⟩

theorem passes (committed : machine.Committed asked) (passes : machine.Passes actions next) :
    next.Committed (asked ++ actions) := by
  cases passes with
  | stays => rwa [List.append_nil]
  | dials state =>
    exact committed.goes_on (by simp [IsEnding, state]) (by simp [IsEnding]) (by simp)
  | connects state =>
    exact committed.goes_on (by simp [IsEnding, state]) (by simp [IsEnding]) (by simp)
  | fails state =>
    exact committed.goes_on (by simp [IsEnding, state]) (by simp [IsEnding, failing]) (by simp)
  | serves state =>
    exact committed.goes_on (by simp [IsEnding, state]) (by simp [IsEnding, state]) (by simp)
  | loses state =>
    exact committed.goes_on (by simp [IsEnding, state]) (by simp [IsEnding, failing])
      (by cases machine.resend <;> simp [onLoss])
  | ends state =>
    exact committed.gives_up (by simp [IsEnding, state]) (Or.inr rfl) [.dropTransport] (by simp)
  | leavesWaiting state =>
    exact committed.gives_up (by simp [IsEnding, state]) (Or.inr rfl) [.cancelReconnect] (by simp)
  | leavesDialing state =>
    exact committed.gives_up (by simp [IsEnding, state]) (Or.inl rfl) [.cancelReconnect] (by simp)
  | leavesOpen state =>
    exact committed.gives_up (by simp [IsEnding, state]) (Or.inl rfl)
      [.cancelReconnect, closeForGood] (by simp [closeForGood])
  | opensLate state => exact committed.winds_up (Or.inl state) (Or.inl state) (by simp)
  | parts state => exact committed.winds_up (Or.inl state) (Or.inr rfl) (by simp)

end Committed

theorem committed_run (backoff : Backoff) (resend : Bool) (events : List Event) :
    ((start backoff resend).run events).1.Committed
      ((start backoff resend).run events).2.flatten :=
  run_keeps Committed (start backoff resend)
    ⟨fun ending => by simp [IsEnding, start] at ending, fun _ => List.not_mem_nil⟩
    (fun _ _ _ _ committed passes => committed.passes passes) events

theorem run_of_closed {machine : Lifecycle} (closed : machine.state = .closed)
    (events : List Event) : machine.run events = (machine, events.map fun _ => []) := by
  induction events with
  | nil => rfl
  | cons event events ih =>
    have ignored : machine.handle event = (machine, []) := by
      unfold handle
      split <;> simp_all
    simp [run, ignored, ih]

/-- Whatever the events are, a session is given up at most once, exactly when it is on the way to
its end. Nothing is asked for afterwards but to close the connection and to let go of it, and once
the session is closed nothing at all. -/
theorem given_up_for_good (backoff : Backoff) (resend : Bool) (events : List Event) :
    let last := (start backoff resend).run events
    last.2.flatten.count .failPending ≤ 1 ∧
    (.failPending ∈ last.2.flatten ↔ last.1.state = .closing ∨ last.1.state = .closed) ∧
    (∀ before after, last.2.flatten = before ++ .failPending :: after →
      ∀ action ∈ after, action = closeForGood ∨ action = .dropTransport) ∧
    (last.1.state = .closed →
      ∀ later, last.1.run later = (last.1, later.map fun _ => [])) := by
  intro last
  obtain ⟨ending, going⟩ := committed_run backoff resend events
  change last.1.IsEnding → GivenUp last.2.flatten at ending
  change ¬last.1.IsEnding → .failPending ∉ last.2.flatten at going
  by_cases ends : last.1.IsEnding
  · have given := ending ends
    exact ⟨Nat.le_of_eq given.count, iff_of_true given.mem ends, fun _ _ => given.since,
      run_of_closed⟩
  · have never := going ends
    refine ⟨?_, iff_of_false never ends, ?_, run_of_closed⟩
    · rw [List.count_eq_zero_of_not_mem never]
      exact Nat.zero_le 1
    · intro before after split
      exact absurd (split ▸ by simp) never

/-- A session ends while its first attempt is under way, which succeeds after all. -/
def departure : List Event := [.connect, .disconnect, .opened, .closed ⟨1000, "", true⟩]

/-- It is given up once, and passes over whoever wants it to go on. -/
theorem given_up_for_good_departure :
    let last := (start .standard true).run departure
    last.2.flatten =
        [.openTransport, .cancelReconnect, .failPending, closeForGood, .dropTransport] ∧
      (∀ action ∈ [closeForGood, .dropTransport],
        action = closeForGood ∨ action = .dropTransport) ∧
      last.1.run [.connect, .delayElapsed] = (last.1, [[], []]) := by
  intro last
  have asked : last.2.flatten =
      [.openTransport, .cancelReconnect] ++ .failPending :: [closeForGood, .dropTransport] := rfl
  have closed : last.1.state = .closed := rfl
  obtain ⟨_, _, since, final⟩ := given_up_for_good .standard true departure
  exact ⟨asked, since _ _ asked, final closed [.connect, .delayElapsed]⟩

end Lifecycle

end Tether.Session
