import Tether.Proofs.Session.Discipline

/-! A lifecycle counts its failures and forgets them when a connection opens. The count does not
show, but what is asked for does: every failure starts a delay, and every opening sends what waits.
So each delay can be told from what was asked for before it. -/

namespace Tether.Session

/-- Whether a delay is started. -/
def Action.isDelay : Action → Bool
  | .scheduleReconnect _ => true
  | _ => false

/-- How many delays were started since the outbox was last sent, or at all if it never was. -/
def delaysSinceFlush (asked : List Action) : Nat :=
  (asked.reverse.takeWhile fun action => action ≠ .flushQueue).countP Action.isDelay

theorem delaysSinceFlush_concat (asked : List Action) (action : Action) :
    delaysSinceFlush (asked ++ [action]) =
      if action = .flushQueue then 0
      else if action.isDelay then delaysSinceFlush asked + 1
      else delaysSinceFlush asked := by
  simp only [delaysSinceFlush, List.reverse_append, List.reverse_singleton, List.singleton_append,
    List.takeWhile_cons]
  by_cases sends : action = .flushQueue
  · simp [sends]
  · cases waits : action.isDelay <;> simp [sends, waits]

/-- The failures that count for a delay; no more than 32 bits hold. -/
def countedFailures (asked : List Action) : Nat := min (delaysSinceFlush asked) (UInt32.size - 1)

/-- Every delay is the one that is due after what was asked for before it. -/
def DelaysDue (backoff : Backoff) (asked : List Action) : Prop :=
  ∀ before delay after, asked = before ++ .scheduleReconnect delay :: after →
    delay = backoff.delay (countedFailures before)

theorem DelaysDue.concat {backoff : Backoff} {asked : List Action} (due : DelaysDue backoff asked)
    {action : Action} (last : ∀ delay, action = .scheduleReconnect delay →
      delay = backoff.delay (countedFailures asked)) : DelaysDue backoff (asked ++ [action]) := by
  intro before delay after split
  rcases List.eq_nil_or_concat after with rfl | ⟨after, other, rfl⟩
  · obtain ⟨rfl, same⟩ := List.append_inj' split rfl
    exact last delay (List.cons.inj same).1
  · rw [List.concat_eq_append, ← List.cons_append, ← List.append_assoc] at split
    obtain ⟨same, _⟩ := List.append_inj' split rfl
    exact due before delay after same

namespace Lifecycle

theorem toNat_failures_failing (machine : Lifecycle) :
    machine.failing.failures.toNat = min (machine.failures.toNat + 1) (UInt32.size - 1) := by
  unfold failing
  dsimp only
  split
  · rename_i full
    rw [full]
    rfl
  · rename_i room
    have bounded : machine.failures.toNat < UInt32.size := machine.failures.toNat_lt
    have less : machine.failures.toNat ≠ UInt32.size - 1 := fun same =>
      room (UInt32.toNat_inj.mp same)
    have next : (machine.failures + 1).toNat = (machine.failures.toNat + 1) % UInt32.size :=
      UInt32.toNat_add _ _
    rw [next, Nat.mod_eq_of_lt (by omega)]
    omega

/-- A machine counts what shows in what it asked for, and its delays were right so far. -/
structure Counts (backoff : Backoff) (machine : Lifecycle) (asked : List Action) : Prop where
  policy : machine.backoff = backoff
  count : machine.failures.toNat = countedFailures asked
  due : DelaysDue backoff asked

namespace Counts

variable {backoff : Backoff} {machine next : Lifecycle} {asked actions : List Action}

theorem append (counts : machine.Counts backoff asked)
    (others : ∀ action ∈ actions, action ≠ .flushQueue ∧ action.isDelay = false) :
    machine.Counts backoff (asked ++ actions) := by
  induction actions generalizing asked with
  | nil => rwa [List.append_nil]
  | cons action actions ih =>
    obtain ⟨stays, quick⟩ := others action List.mem_cons_self
    rw [← List.singleton_append, ← List.append_assoc]
    refine ih ⟨counts.policy, ?_, counts.due.concat ?_⟩ fun other member =>
      others other (List.mem_cons_of_mem _ member)
    · rw [counts.count, countedFailures, countedFailures, delaysSinceFlush_concat]
      simp [stays, quick]
    · rintro delay rfl
      cases quick

theorem of_same (counts : machine.Counts backoff asked) (policy : next.backoff = machine.backoff)
    (count : next.failures = machine.failures) : next.Counts backoff asked :=
  ⟨policy.trans counts.policy, by rw [count, counts.count], counts.due⟩

theorem flush (counts : machine.Counts backoff asked) (policy : next.backoff = machine.backoff)
    (count : next.failures = 0) : next.Counts backoff (asked ++ [.flushQueue]) := by
  refine ⟨policy.trans counts.policy, ?_, counts.due.concat ?_⟩
  · rw [count, countedFailures, delaysSinceFlush_concat]
    rfl
  · rintro delay ⟨⟩

theorem fail (counts : machine.Counts backoff asked) :
    machine.failing.Counts backoff (asked ++ [.scheduleReconnect machine.delay]) := by
  refine ⟨counts.policy, ?_, counts.due.concat ?_⟩
  · have next : delaysSinceFlush (asked ++ [.scheduleReconnect machine.delay]) =
        delaysSinceFlush asked + 1 := delaysSinceFlush_concat asked _
    rw [toNat_failures_failing, counts.count, countedFailures, countedFailures, next]
    omega
  · rintro delay ⟨⟩
    rw [Lifecycle.delay, counts.policy, counts.count]

/-- A failure may ask for other things before its delay. -/
theorem fail_after (counts : machine.Counts backoff asked)
    (others : ∀ action ∈ actions, action ≠ .flushQueue ∧ action.isDelay = false) :
    machine.failing.Counts backoff
      (asked ++ (actions ++ [.scheduleReconnect machine.delay])) := by
  rw [← List.append_assoc]
  exact (counts.append others).fail

theorem passes (counts : machine.Counts backoff asked) (passes : machine.Passes actions next) :
    next.Counts backoff (asked ++ actions) := by
  cases passes with
  | stays => rwa [List.append_nil]
  | dials => exact (counts.append (by simp [Action.isDelay])).of_same rfl rfl
  | connects => exact counts.flush rfl rfl
  | fails =>
    have others : ∀ action ∈ [Action.dropTransport],
        action ≠ .flushQueue ∧ action.isDelay = false := by simp [Action.isDelay]
    exact counts.fail_after others
  | serves => exact counts.append (by simp [Action.isDelay])
  | loses =>
    refine counts.fail_after ?_
    cases machine.resend <;> simp [Action.isDelay]
  | ends => exact (counts.append (by simp [Action.isDelay])).of_same rfl rfl
  | leavesWaiting => exact (counts.append (by simp [Action.isDelay])).of_same rfl rfl
  | leavesDialing => exact (counts.append (by simp [Action.isDelay])).of_same rfl rfl
  | leavesOpen => exact (counts.append (by simp [Action.isDelay, closeForGood])).of_same rfl rfl
  | opensLate => exact counts.append (by simp [Action.isDelay, closeForGood])
  | parts => exact (counts.append (by simp [Action.isDelay])).of_same rfl rfl

end Counts

/-- Whatever the events are, each delay that a lifecycle asks for is the one its policy has for the
number of delays that were asked for since the outbox was last sent, or since the start, as far as
32 bits count. -/
theorem delays_follow_failures (backoff : Backoff) (resend : Bool) (events : List Event)
    (before after : List Action) (delay : Time.Interval)
    (split : ((start backoff resend).run events).2.flatten =
      before ++ .scheduleReconnect delay :: after) :
    delay = backoff.delay (countedFailures before) :=
  (run_keeps (Counts backoff) (start backoff resend)
    ⟨rfl, rfl, fun before delay after split => by simp at split⟩
    (fun _ _ _ _ counts passes => counts.passes passes) events).due before delay after split

/-- Two attempts fail, the third succeeds, and the connection is lost. -/
def relapse : List Event :=
  [.connect, .failed "refused", .delayElapsed, .failed "refused", .delayElapsed, .opened,
    .failed "reset"]

/-- Two failures count until the connection opens, and none count when it is lost. -/
theorem delays_follow_failures_relapse :
    let backoff : Backoff := .exponential (.ofMillis 100) (.ofSeconds 5) (.infinite false)
    let refused : List Action := [.openTransport, .dropTransport,
      .scheduleReconnect (backoff.delay 0), .openTransport, .dropTransport,
      .scheduleReconnect (backoff.delay 1)]
    let before := refused ++ [.openTransport, .flushQueue, .dropTransport]
    ((start backoff false).run relapse).2.flatten =
        before ++ [.scheduleReconnect (backoff.delay 0)] ∧
      countedFailures refused = 2 ∧ countedFailures before = 0 ∧
      backoff.delay 0 = backoff.delay (countedFailures before) := by
  intro backoff refused before
  have asked : ((start backoff false).run relapse).2.flatten =
      before ++ [.scheduleReconnect (backoff.delay 0)] := rfl
  exact ⟨asked, rfl, rfl, delays_follow_failures backoff false relapse before [] _ asked⟩

end Lifecycle

end Tether.Session
