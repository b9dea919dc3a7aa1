import Tether.Proofs.Session.Backoff
import Tether.Proofs.Session.Discipline
import Tether.Proofs.Session.Settings
import Tether.Proofs.Session.Submission

/-! Settings are looked at before a session begins, but not with regard to the clock. A time-out or
a delay can be so long that the clock cannot show when it is over. Whoever adds it to the time then
breaks off in the middle of its turn: a caller after it took an id, or the session itself. Nothing
else breaks off a turn. -/

namespace Tether.Session

open Message (ClientMessage)
open Time (Instant Interval Timestamp)

variable {κ σ : Type}

theorem plus?_eq_none_iff {now : Instant} {interval : Interval} :
    now.plus? interval = none ↔ Instant.bound ≤ now.nanos + interval.nanos := by
  unfold Instant.plus?
  split
  · rename_i shown
    exact iff_of_false (Option.some_ne_none _) (Nat.not_le.mpr shown)
  · rename_i late
    exact iff_of_true rfl (Nat.le_of_not_lt late)

theorem deadline?_eq_none_iff {settings : Settings} {now : Instant} :
    settings.deadline? now = none ↔ ∃ timeout ∈ settings.requestTimeout,
      Instant.bound ≤ now.nanos + timeout.nanos := by
  unfold Settings.deadline?
  cases settings.requestTimeout with
  | none => simp
  | some timeout => simp [plus?_eq_none_iff]

namespace Backoff

/-- A bound on the delays of a policy. -/
def longest : Backoff → Interval
  | fixed delay => delay
  | exponential _ ceiling _ => ceiling

theorem nanos_delay_le_longest (policy : Backoff) (attempt : Nat) :
    (policy.delay attempt).nanos ≤ policy.longest.nanos := by
  cases policy with
  | fixed delay => exact Nat.le_refl delay.nanos
  | exponential initial ceiling multiplier => exact nanos_delay_le initial ceiling multiplier attempt

end Backoff

namespace Lifecycle

variable {machine next : Lifecycle} {actions : List Action}

theorem Passes.backoff (passes : machine.Passes actions next) : next.backoff = machine.backoff := by
  cases passes <;> rfl

theorem Passes.delay_eq (passes : machine.Passes actions next) {delay : Interval}
    (asks : .scheduleReconnect delay ∈ actions) : delay = machine.delay := by
  cases passes with
  | fails => simpa using asks
  | loses =>
    unfold onLoss at asks
    cases machine.resend <;> simpa using asks
  | _ => simp [closeForGood] at asks

end Lifecycle

namespace Course

variable (terms : Terms σ)

/-- A delay that is about to be started is one that the settings have for some number of
failures. -/
structure Delays (course : Course κ σ) : Prop where
  policy : course.runner.lifecycle.backoff = terms.settings.reconnect
  due : ∀ delay, .scheduleReconnect delay ∈ course.work.actions →
    ∃ failures, delay = terms.settings.reconnect.delay failures

theorem delays_start (now : Instant) (time : Timestamp) (rest : σ) :
    (start terms now time rest : Course κ σ).Delays terms where
  policy := rfl
  due delay asks := by cases asks

variable {terms}

private theorem Delays.advance {course : Course κ σ} (delays : course.Delays terms) :
    (course.advance terms).Delays terms := by
  rcases course.advance_cases terms with
    same | ⟨action, actions, events, work, _, acts⟩ | ⟨event, events, work, handles⟩ |
      ⟨_, work, publishes⟩
  · rw [same]
    exact delays
  · have leaves := Runner.perform_leaves terms course.now course.time course.runner action
    rw [acts]
    refine ⟨(congrArg Lifecycle.backoff leaves.1).trans delays.policy,
      fun delay asks => delays.due delay ?_⟩
    · rw [work]
      exact List.mem_cons_of_mem action asks
  · have passes := course.runner.lifecycle.passes_handle event
    rw [handles]
    refine ⟨passes.backoff.trans delays.policy, fun delay asks => ?_⟩
    rw [passes.delay_eq asks, Lifecycle.delay, delays.policy]
    exact ⟨_, rfl⟩
  · rw [publishes]
    refine ⟨delays.policy, fun delay asks => ?_⟩
    cases asks

variable [DecidableEq κ]

theorem Delays.turn {course : Course κ σ} (delays : course.Delays terms) (next : Turn κ σ) :
    (course.turn terms next).Delays terms := by
  rcases course.turn_cases terms next with
    ⟨work, lifecycle, _, _⟩ | ⟨choice, _, ⟨idle, _⟩, attends⟩ | ⟨_, advances⟩
  · refine ⟨?_, ?_⟩
    · rw [lifecycle]
      exact delays.policy
    · rw [work]
      exact delays.due
  · obtain ⟨lifecycle, actions, _⟩ := attend_leaves terms idle choice
    rw [attends]
    refine ⟨?_, fun delay asks => ?_⟩
    · rw [lifecycle]
      exact delays.policy
    · rw [actions] at asks
      cases asks
  · rw [advances]
    exact delays.advance

theorem delays_play (terms : Terms σ) (now : Instant) (time : Timestamp) (rest : σ)
    (turns : List (Turn κ σ)) : ((start terms now time rest).play terms turns).Delays terms :=
  play_keeps terms (fun course => course.Delays terms) (fun _ next delays => delays.turn next)
    _ turns (delays_start terms now time rest)

end Course

/-- A submission breaks off if the books are open, there is an id to take and the clock cannot show
the deadline. -/
theorem Core.Orderly.breaksOff_iff {core : Core κ} (orderly : core.Orderly) (terms : Terms σ)
    (now : Instant) (message : ClientMessage) (caller : κ) :
    core.BreaksOff terms now (.submit message caller) ↔
      core.closed = false ∧ core.registry.inUse.size ≠ 255 ∧
        terms.settings.deadline? now = none := by
  change (core.submit terms.signing terms.settings now message caller).1 = .error .deadline ↔ _
  rw [(orderly.submitted terms now message caller).1]
  simp only [Core.verdict]
  split
  · rename_i closed
    simp [closed]
  · split
    · rename_i full
      simp [full]
    · split
      · rename_i runs spare never
        simp [runs, spare, never]
      · rename_i shown
        split
        · simp [shown]
        · split <;> simp [shown]

/-- A delay breaks off a session that starts it too late. -/
theorem Runner.stranded_scheduleReconnect (outside : Surroundings σ) (runner : Runner κ σ)
    (delay : Interval) :
    (runner.perform outside (.scheduleReconnect delay)).runner.stranded = true ↔
      runner.stranded = true ∨ Instant.bound ≤ outside.now.nanos + delay.nanos := by
  rw [← plus?_eq_none_iff]
  cases due : outside.now.plus? delay <;> simp [perform, due]

namespace Course

variable (terms : Terms σ)

/-- Whoever takes the turn breaks off in the middle of it: a caller in its submission, or the
session. -/
def Crashes [DecidableEq κ] (course : Course κ σ) (next : Turn κ σ) : Prop :=
  course.core.BreaksOff terms course.now (course.deed terms next) ∨
    course.runner.stranded = false ∧ (course.turn terms next).runner.stranded = true

/-- What is to be added to the time takes it past the range of the clock. -/
inductive Overruns (course : Course κ σ) : Turn κ σ → Prop
  /-- The time-out of a request that has an id. -/
  | deadline (message : ClientMessage) (caller : κ) (timeout : Interval)
      (runs : course.core.closed = false) (spare : course.core.registry.inUse.size ≠ 255)
      (limit : terms.settings.requestTimeout = some timeout)
      (late : Instant.bound ≤ course.now.nanos + timeout.nanos) :
      Overruns course (.submit message caller)
  /-- The delay that the session starts after some number of failures. -/
  | delay (failures : Nat) (actions : List Action) (events : List Event)
      (going : course.runner.stranded = false)
      (work : course.work =
        .busy (.scheduleReconnect (terms.settings.reconnect.delay failures) :: actions) events)
      (late : Instant.bound ≤
        course.now.nanos + (terms.settings.reconnect.delay failures).nanos) :
      Overruns course .proceed

theorem deed_eq_submit {course : Course κ σ} {next : Turn κ σ} {message : ClientMessage}
    {caller : κ} (submits : course.deed terms next = .submit message caller) :
    next = .submit message caller := by
  have noFlush (runner : Runner κ (Wires σ)) :
      runner.flushDeed (terms.outside course.now course.time) ≠ .submit message caller := by
    unfold Runner.flushDeed
    split <;> simp
  cases next with
  | submit message caller =>
    cases submits
    rfl
  | take choice =>
    simp only [deed] at submits
    split at submits
    · split at submits
      · cases submits
      · exact absurd submits (noFlush course.runner)
    · split at submits <;> cases submits
    · cases submits
  | proceed =>
    simp only [deed] at submits
    split at submits
    · rename_i action _ _ _
      split at submits
      · cases submits
      · cases action with
        | flushQueue => exact absurd submits (noFlush course.runner)
        | _ => cases submits
    · cases submits
  | _ => cases submits

variable [DecidableEq κ]

/-- A session breaks off when it starts a delay that the clock cannot show the end of. -/
theorem strands_iff (course : Course κ σ) (next : Turn κ σ) :
    course.runner.stranded = false ∧ (course.turn terms next).runner.stranded = true ↔
      next = .proceed ∧ course.runner.stranded = false ∧ ∃ delay actions events,
        course.work = .busy (.scheduleReconnect delay :: actions) events ∧
          Instant.bound ≤ course.now.nanos + delay.nanos := by
  constructor
  · rintro ⟨going, broken⟩
    have own : next = .proceed := by
      by_contra other
      rw [course.stranded_turn terms other, going] at broken
      cases broken
    subst own
    refine ⟨rfl, going, ?_⟩
    change (course.advance terms).runner.stranded = true at broken
    rcases course.advance_cases terms with
      same | ⟨action, actions, events, work, _, acts⟩ | ⟨_, _, _, handles⟩ | ⟨_, _, publishes⟩
    · rw [same, going] at broken
      cases broken
    · rw [acts] at broken
      by_cases asks : ∃ delay, action = .scheduleReconnect delay
      · obtain ⟨delay, rfl⟩ := asks
        have late := (Runner.stranded_scheduleReconnect _ _ _).mp broken
        exact ⟨delay, actions, events, work, late.resolve_left (Bool.eq_false_iff.mp going)⟩
      · dsimp only at broken
        rw [Runner.stranded_perform _ _ fun delay same => asks ⟨delay, same⟩, going] at broken
        cases broken
    · rw [handles, going] at broken
      cases broken
    · rw [publishes, going] at broken
      cases broken
  · rintro ⟨rfl, going, delay, actions, events, work, late⟩
    refine ⟨going, ?_⟩
    simp only [turn, advance, going, work]
    exact (Runner.stranded_scheduleReconnect _ _ _).mpr (Or.inr late)

/-- What breaks off a turn is a sum that the clock cannot show. -/
theorem crashes_iff {course : Course κ σ} (orderly : course.core.Orderly)
    (delays : course.Delays terms) (next : Turn κ σ) :
    course.Crashes terms next ↔ course.Overruns terms next := by
  unfold Crashes
  rw [strands_iff]
  constructor
  · rintro (breaks | ⟨rfl, going, delay, actions, events, work, late⟩)
    · obtain ⟨_, _, message, caller, _, submits, _⟩ := Core.deadline_of_breaksOff terms breaks
      rw [submits] at breaks
      obtain rfl := deed_eq_submit terms submits
      obtain ⟨runs, spare, never⟩ := (orderly.breaksOff_iff terms _ message caller).mp breaks
      obtain ⟨timeout, limit, late⟩ := deadline?_eq_none_iff.mp never
      exact .deadline message caller timeout runs spare limit late
    · obtain ⟨failures, rfl⟩ := delays.due delay (by rw [work]; exact List.mem_cons_self)
      exact .delay failures actions events going work late
  · intro overruns
    cases overruns with
    | deadline message caller timeout runs spare limit late =>
      have never := deadline?_eq_none_iff.mpr ⟨timeout, limit, late⟩
      exact Or.inl ((orderly.breaksOff_iff terms _ message caller).mpr ⟨runs, spare, never⟩)
    | delay failures actions events going work late =>
      exact Or.inr ⟨rfl, going, _, actions, events, work, late⟩

/-- A session that broke off takes no further turn, and its callers hear nothing any more. -/
theorem standsStill_of_stranded {course : Course κ σ} (broken : course.runner.stranded = true)
    (turns : List (Turn κ σ)) :
    (course.play terms turns).runner.stranded = true ∧
      course.StandsStill (course.play terms turns) := by
  refine play_keeps terms
    (fun later => later.runner.stranded = true ∧ course.StandsStill later) ?_ course turns
    ⟨broken, rfl, rfl, rfl, rfl⟩
  rintro later next ⟨stranded, still⟩
  have same : later.advance terms = later := if_pos stranded
  have stays : (later.turn terms next).runner.stranded = true := by
    by_cases own : next = .proceed
    · rw [own]
      exact (congrArg (fun course => course.runner.stranded) same).trans stranded
    · rw [later.stranded_turn terms own, stranded]
  refine ⟨stays, ?_⟩
  rcases later.turn_cases terms next with
    ⟨work, lifecycle, connection, news⟩ | ⟨_, _, waits, _⟩ | ⟨_, advances⟩
  · exact ⟨work.trans still.work, lifecycle.trans still.lifecycle,
      connection.trans still.connection, news.trans still.news⟩
  · rw [(waits_iff.mp waits).2.2] at stranded
    cases stranded
  · rw [advances, same]
    exact still

/-- The turns of a session whose first attempt is refused, up to the delay after it. -/
def refusal (reason : String) : List (Turn κ σ) :=
  [.proceed, .proceed, .proceed, .refuse reason, .take .report, .proceed, .proceed]

theorem play_dial (now : Instant) (time : Timestamp) (rest : σ) :
    (start terms now time rest : Course κ σ).play terms [.proceed, .proceed, .proceed] =
      { runner := { Runner.start terms.settings ⟨1, [], [], [], [], rest⟩ with
          lifecycle := ⟨.connecting, terms.settings.reconnect, terms.settings.resendUnanswered, 0⟩
          published := .connecting }
        work := .waiting
        now := now
        time := time
        news := [.state .connecting] } := rfl

theorem play_refusal (now : Instant) (time : Timestamp) (rest : σ) (reason : String) :
    ∃ runner news, runner.stranded = false ∧
      (start terms now time rest : Course κ σ).play terms (refusal reason) =
        { runner := runner
          work := .busy [.scheduleReconnect (terms.settings.reconnect.delay 0)] []
          now := now
          time := time
          news := news } := by
  have split : (refusal reason : List (Turn κ σ)) = [.proceed, .proceed, .proceed] ++
      [.refuse reason, .take .report, .proceed, .proceed] := rfl
  rw [split, play_append, play_dial]
  exact ⟨_, _, rfl, rfl⟩

/-- A session breaks off after a refused attempt if the clock cannot show the end of the first
delay. -/
theorem crashes_after_refusal_iff (now : Instant) (time : Timestamp) (rest : σ) (reason : String) :
    ((start terms now time rest : Course κ σ).play terms (refusal reason)).Crashes terms .proceed ↔
      Instant.bound ≤ now.nanos + (terms.settings.reconnect.delay 0).nanos := by
  have orderly := orderly_play terms now time rest (refusal reason : List (Turn κ σ))
  have delays := delays_play terms now time rest (refusal reason : List (Turn κ σ))
  obtain ⟨runner, news, going, comes⟩ := @play_refusal κ σ terms _ now time rest reason
  rw [crashes_iff terms orderly delays, comes]
  constructor
  · intro overruns
    cases overruns with
    | delay failures actions events going work late =>
      have same := (Work.busy.inj work).1
      rw [Action.scheduleReconnect.inj (List.cons.inj same).1]
      exact late
  · exact fun late => .delay 0 [] [] going rfl late

end Course

/-- The interval in which valid settings have the requests looked over is never zero. Whatever a
session and those around it do, in any order and at any time: a turn breaks off if and only if it
adds to the time what the clock cannot show, either the time-out of a request that has an id or the
delay after some number of failures. So nobody breaks off as long as the clock can show the time
with the time-out and with the longest delay. -/
theorem Course.only_late_sums_crash [DecidableEq κ] {terms : Terms σ}
    (valid : terms.settings.flaw? = none) (now : Instant) (time : Timestamp) (rest : σ)
    (turns : List (Turn κ σ)) (next : Turn κ σ) :
    let course := (start terms now time rest).play terms turns
    terms.settings.sweepInterval.nanos ≠ 0 ∧
    (course.Crashes terms next ↔ course.Overruns terms next) ∧
    ((∀ timeout ∈ terms.settings.requestTimeout,
        course.now.nanos + timeout.nanos < Instant.bound) →
      course.now.nanos + terms.settings.reconnect.longest.nanos < Instant.bound →
      ¬course.Crashes terms next) := by
  intro course
  have orderly : course.core.Orderly := orderly_play terms now time rest turns
  have exactly := crashes_iff terms orderly (delays_play terms now time rest turns) next
  refine ⟨(Settings.flaw?_eq_none_iff.mp valid).1, exactly, ?_⟩
  intro timeouts delays
  rw [exactly]
  intro overruns
  cases overruns with
  | deadline message caller timeout runs spare limit late =>
    exact Nat.not_le.mpr (timeouts timeout limit) late
  | delay failures actions events going work late =>
    have short := terms.settings.reconnect.nanos_delay_le_longest failures
    omega

/-- A first attempt is refused, and the standard delay begins. -/
theorem Course.only_late_sums_crash_refused :
    let course : Course Nat Unit :=
      (start Terms.plain ⟨0⟩ ⟨0⟩ ()).play Terms.plain (refusal "refused")
    Terms.plain.settings.flaw? = none ∧
      course.work.actions = [.scheduleReconnect (.ofMillis 300)] ∧
      ¬course.Crashes Terms.plain .proceed := by
  intro course
  have valid : Terms.plain.settings.flaw? = none := by decide
  obtain ⟨_, _, safe⟩ := only_late_sums_crash valid ⟨0⟩ ⟨0⟩ ()
    (refusal "refused" : List (Turn Nat Unit)) .proceed
  exact ⟨valid, rfl, safe (by decide) (by decide)⟩

/-- Plain terms with the longest delay that there is. -/
def Terms.distant : Terms Unit :=
  let delay : Interval := .ofSeconds 18446744073709551615
  { Terms.plain with settings := { Settings.standard with reconnect := .fixed delay } }

/-- Valid settings let a caller break off with its first request, and a session after its first
attempt. -/
theorem Course.valid_settings_crash :
    Terms.endless.settings.flaw? = none ∧
      (start Terms.endless ⟨0⟩ ⟨0⟩ () : Course Nat Unit).Crashes Terms.endless (.submit .ping 7) ∧
      Terms.distant.settings.flaw? = none ∧
      ((start Terms.distant ⟨0⟩ ⟨0⟩ () : Course Nat Unit).play Terms.distant
        (refusal "refused")).Crashes Terms.distant .proceed := by
  refine ⟨by decide, ?_, by decide, ?_⟩
  · exact Or.inl (by decide)
  · exact (crashes_after_refusal_iff Terms.distant ⟨0⟩ ⟨0⟩ () "refused").mpr (by decide)

end Tether.Session
