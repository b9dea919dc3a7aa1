import Tether.Proofs.Session.Callers
import Tether.Proofs.Session.Departure
import Tether.Proofs.Session.Leaks

namespace Tether.Session

open Message (ClientMessage)
open Time (Instant Timestamp)
open Transport (ConnectionId)

variable {κ σ : Type}

namespace Core

/-- The books were closed for good, and nothing is left in them. -/
def Cleared (core : Core κ) : Prop := core.Torn ∧ core.outbox.frames = []

theorem cleared_failPending (core : Core κ) : core.failPending.1.Cleared :=
  ⟨core.torn_failPending, rfl⟩

variable (terms : Terms σ) {core : Core κ}

theorem submit_of_closed (closed : core.closed = true) (now : Instant) (message : ClientMessage)
    (caller : κ) :
    core.submit terms.signing terms.settings now message caller =
      (.error (.session .closed), core) := by
  simp only [submit, closed, ↓reduceIte]

theorem notify_of_closed (closed : core.closed = true) (message : ClientMessage) :
    core.notify terms.signing message =
      match Envelope.encode terms.signing.scheme message .none terms.signing.keys with
      | .ok _ => .error (.session .closed)
      | .error cause => .error (.frame cause) := by
  unfold notify
  cases Envelope.encode terms.signing.scheme message .none terms.signing.keys with
  | ok frame =>
    simp [Except.mapError, bind, Except.bind, closed, throw, throwThe, MonadExceptOf.throw]
  | error cause => rfl

namespace Cleared

variable (cleared : core.Cleared)

include cleared

/-- No deed changes books that were cleared. -/
theorem after [DecidableEq κ] (now : Instant) (time : Timestamp) (deed : Deed κ) :
    core.after terms now time deed = core := by
  obtain ⟨⟨closed, none⟩, clear⟩ := cleared
  obtain ⟨⟨inUse, cursor, pending⟩, ⟨capacity, frames⟩, closed⟩ := core
  subst closed none clear
  cases deed with
  | nothing => rfl
  | submit message caller => simp only [Core.after, submit, ↓reduceIte]
  | notify message =>
    simp only [Core.after, notify_of_closed]
    cases Envelope.encode terms.signing.scheme message .none terms.signing.keys <;> rfl
  | abandon caller => rfl
  | ship line count => simp [Core.after, ship, Registry.markSentAll]
  | requeue => rfl
  | dispatch frame =>
    simp only [Core.after]
    rcases dispatch_cases terms.signing _ frame with ⟨same, _⟩ | ⟨request, _, _, found, _⟩
    · exact same
    · cases found
  | sweep => rfl
  | teardown => rfl

theorem written (deed : Deed κ) : deed.written core = [] := by
  cases deed with
  | ship line count => simp [Deed.written, cleared.2]
  | _ => rfl

theorem tells (now : Instant) (deed : Deed κ) : core.tells terms now deed = [] := by
  obtain ⟨⟨_, none⟩, _⟩ := cleared
  cases deed with
  | dispatch frame =>
    rcases core.dispatch_cases terms.signing frame with ⟨_, silent, _⟩ | ⟨request, _, _, found, _⟩
    · exact silent
    · have waits := (Registry.find?_eq_some found).1
      rw [none] at waits
      cases waits
  | sweep => simp [Core.tells, sweep, Registry.expire, none]
  | teardown => simp [Core.tells, failPending, Registry.rejectAll, none]
  | _ => rfl

end Cleared

end Core

namespace Course

variable [DecidableEq κ] (terms : Terms σ)

/-- Once books are cleared they stay as they are, nothing is written and nobody is told of
anything. -/
theorem play_of_cleared {course : Course κ σ} (cleared : course.core.Cleared)
    (turns : List (Turn κ σ)) :
    (course.play terms turns).core = course.core ∧
      (course.play terms turns).wires.accepted = course.wires.accepted ∧
      (course.play terms turns).told = course.told := by
  refine play_keeps terms (fun later => later.core = course.core ∧
    later.wires.accepted = course.wires.accepted ∧ later.told = course.told) ?_ course turns
    ⟨rfl, rfl, rfl⟩
  rintro later next ⟨core, accepted, told⟩
  rw [← core] at cleared
  obtain ⟨books, written⟩ := later.turn_does terms next
  refine ⟨?_, ?_, ?_⟩
  · rw [books, cleared.after, core]
  · rw [written, cleared.written, List.append_nil, accepted]
  · rw [told_turn, cleared.tells, List.append_nil, told]

theorem turn_of_closed {course : Course κ σ} (closed : course.core.closed = true)
    (message : ClientMessage) :
    (∀ caller, course.turn terms (.submit message caller) = course) ∧
      course.turn terms (.notify message) = course := by
  constructor
  · intro caller
    simp only [turn, Core.submit_of_closed terms closed]
    rfl
  · simp only [turn, Core.notify_of_closed terms closed]
    cases Envelope.encode terms.signing.scheme message .none terms.signing.keys <;> rfl

/-- A teardown leaves cleared books, and tells everyone who waits. -/
theorem turn_of_teardown {course : Course κ σ} {next : Turn κ σ}
    (tears : course.deed terms next = .teardown) :
    (course.turn terms next).core = course.core.failPending.1 ∧
      (course.turn terms next).wires.accepted = course.wires.accepted ∧
      (course.turn terms next).told = course.told ++
        course.core.registry.pending.flatMap fun request => request.deliver (.error .closed) := by
  obtain ⟨core, accepted⟩ := course.turn_does terms next
  rw [tears] at core accepted
  refine ⟨core, accepted.trans (List.append_nil _), ?_⟩
  rw [told_turn, tears]
  rfl

theorem play_of_teardown {course : Course κ σ} {next : Turn κ σ}
    (tears : course.deed terms next = .teardown) (later : List (Turn κ σ)) :
    ((course.turn terms next).play terms later).core.Cleared ∧
      ((course.turn terms next).play terms later).core = (course.turn terms next).core ∧
      ((course.turn terms next).play terms later).wires.accepted = course.wires.accepted ∧
      ((course.turn terms next).play terms later).told = course.told ++
        course.core.registry.pending.flatMap fun request => request.deliver (.error .closed) := by
  obtain ⟨torn, shipped, told⟩ := turn_of_teardown terms tears
  have cleared := course.core.cleared_failPending
  rw [← torn] at cleared
  obtain ⟨core, accepted, silent⟩ := play_of_cleared terms cleared later
  rw [core]
  exact ⟨cleared, rfl, accepted.trans shipped, silent.trans told⟩

/-- A request that waits at a teardown has one end, which is the end of the session, if callers
submit one request each. -/
theorem results_of_teardown (now : Instant) (time : Timestamp) (rest : σ)
    {before : List (Turn κ σ)} (distinct : (before.filterMap Turn.caller?).Nodup) {next : Turn κ σ}
    (tears : ((start terms now time rest).play terms before).deed terms next = .teardown)
    {request : Pending κ}
    (waits : request ∈ ((start terms now time rest).play terms before).core.registry.pending)
    (later : List (Turn κ σ)) :
    results request.caller
        ((((start terms now time rest).play terms before).turn terms next).play terms later).told =
      if request.awaited then [.error .closed] else [] := by
  obtain ⟨_, alone, apart⟩ :=
    List.nodup_append.mp (nodup_callers_play terms now time rest distinct)
  have fresh : request.caller ∉
      ((start terms now time rest).play terms before).told.map Delivery.caller := fun earlier =>
    apart _ earlier _ (List.mem_map_of_mem waits) rfl
  have one : results request.caller (request.deliver (.error .closed)) =
      if request.awaited then [.error .closed] else [] := by
    unfold Pending.deliver
    split <;> simp [results]
  rw [(play_of_teardown terms tears later).2.2.2, results_append, results_of_not_mem fresh,
    results_deliveries_of_mem (fun _ => .error .closed) alone waits, one, List.nil_append]

/-- After a teardown no id is taken, except for those that submissions broke off with. -/
theorem inUse_of_teardown (now : Instant) (time : Timestamp) (rest : σ)
    {before : List (Turn κ σ)} {next : Turn κ σ}
    (tears : ((start terms now time rest).play terms before).deed terms next = .teardown) :
    (∀ id, id ∉ (((start terms now time rest).play terms before).turn terms
        next).core.registry.inUse) ↔
      (start terms now time rest).Unbroken terms before := by
  have orderly := orderly_play terms now time rest before
  have none : ∀ id, ¬(start terms now time rest : Course κ σ).core.Lost id :=
    fun id lost => IdSet.not_mem_empty id lost.1
  have fresh : (start terms now time rest : Course κ σ).core.Orderly := Core.orderly_empty _
  have lost := none_lost_play terms fresh before
  generalize (start terms now time rest).play terms before = course at *
  have core := (turn_of_teardown terms tears).1
  have kept := orderly.none_lost_after terms course.now course.time .teardown
  have torn : course.core.failPending.1.registry.pending = [] := course.core.torn_failPending.2
  rw [and_iff_left (show ¬course.core.BreaksOff terms course.now .teardown from id), lost,
    and_iff_right none] at kept
  rw [core, ← kept]
  simp only [Core.after, Core.Lost, torn, List.map_nil, List.not_mem_nil, not_false_eq_true,
    and_true]

end Course

namespace Rig

variable [DecidableEq κ] (terms : Terms σ)

/-- A session that is torn down leaves empty books. No request waits and no frame does, at any later
time, and no id is taken if no submission broke off. Whoever calls is turned away, which changes
nothing. Each request that waited has ended once, by the end of the session, and no frame is
written. A session that is told to end asks the connection to close that it has, or that it gets
later: once, with the code of a normal end, and no other. -/
theorem teardown_is_final (now : Instant) (time : Timestamp) (rest : σ)
    (before : List (Turn κ σ)) :
    let start : Rig κ σ := .start terms now time rest
    let rig := start.play terms before
    let course := rig.course
    (∀ next later, course.deed terms next = .teardown →
      let last := (course.turn terms next).play terms later
      (last.core.registry.pending = [] ∧ last.core.outbox.frames = [] ∧
        ((∀ id, id ∉ last.core.registry.inUse) ↔ start.course.Unbroken terms before)) ∧
      (∀ message caller,
        last.core.submit terms.signing terms.settings last.now message caller =
            (.error (.session .closed), last.core) ∧
          last.turn terms (.submit message caller) = last) ∧
      (∀ message,
        (last.core.notify terms.signing message =
          match Envelope.encode terms.signing.scheme message .none terms.signing.keys with
          | .ok _ => .error (.session .closed)
          | .error cause => .error (.frame cause)) ∧
        last.turn terms (.notify message) = last) ∧
      (last.told = course.told ++
          course.core.registry.pending.flatMap (fun request => request.deliver (.error .closed)) ∧
        ((before.filterMap Turn.caller?).Nodup → ∀ request ∈ course.core.registry.pending,
          results request.caller last.told =
            if request.awaited then [.error .closed] else [])) ∧
      last.wires.accepted = course.wires.accepted) ∧
    rig.gear.closing.length ≤ 1 ∧
    (∀ next, (rig.turn terms next).gear.closing = rig.gear.closing ∨
      next = .proceed ∧
        (∃ actions events,
          course.work = .busy (.closeTransport 1000 "client disconnect" :: actions) events) ∧
        (rig.turn terms next).gear.closing =
          course.runner.connection.toList ++ rig.gear.closing) ∧
    (course.Waits → ∀ later line,
      (course.runner.connection = some line ∨ line ∈ course.unheard ∨
        line ∉ course.wires.opened) →
      let final := rig.play terms (.take .disconnect :: later)
      line ∈ final.course.wires.opened →
        (final.course.work = .waiting → final.gear.closing = [line] ∨
          line ∈ final.course.unheard ∧ final.course.state = .closing) ∧
        ∃ own : List (Turn κ σ), (∀ turn ∈ own, turn = .proceed ∨ turn = .take .report) ∧
          (final.play terms own).gear.closing = [line]) := by
  intro start rig course
  have played : course = (Course.start terms now time rest).play terms before :=
    course_play terms start before
  have whole : rig.Whole := whole_play terms now time rest before
  refine ⟨?_, whole.graceful.single, whole.graceful.closing_turn terms, ?_⟩
  · intro next later tears last
    obtain ⟨cleared, core, accepted, told⟩ := Course.play_of_teardown terms tears later
    have closed := cleared.1.1
    refine ⟨⟨cleared.1.2, cleared.2, ?_⟩,
      fun message caller => ⟨Core.submit_of_closed terms closed last.now message caller,
        (Course.turn_of_closed terms closed message).1 caller⟩,
      fun message => ⟨Core.notify_of_closed terms closed message,
        (Course.turn_of_closed terms closed message).2⟩,
      ⟨told, ?_⟩, accepted⟩
    · change (∀ id, id ∉ (Course.core (Course.play terms _ later)).registry.inUse) ↔ _
      rw [core]
      rw [played] at tears ⊢
      exact Course.inUse_of_teardown terms now time rest tears
    · intro distinct request waits
      change results request.caller (Course.told (Course.play terms _ later)) = _
      rw [played] at tears waits ⊢
      exact Course.results_of_teardown terms now time rest distinct tears waits later
  · intro waits later line concerned final opened
    obtain ⟨leaves, bound⟩ := bound_dismissal terms whole.ready waits concerned
    obtain ⟨sane, ends, parts⟩ := bound.play terms leaves (whole.turn terms _) later
    exact ⟨fun idle => parts.at_rest ends sane.graceful idle opened,
      parts.comes_to_ask terms ends sane opened⟩

/-- A caller waits on an open connection. -/
def asking : List (Turn Nat Unit) :=
  [.proceed, .proceed, .proceed, .openLine ⟨1⟩, .take .report, .proceed, .proceed, .proceed,
    .submit .ping 7]

/-- The session of that caller is told to end, and tears down after it has asked the connection to
close. -/
theorem teardown_is_final_asking :
    let rig := (start Terms.plain ⟨0⟩ ⟨0⟩ ()).play Terms.plain asking
    let torn := (start Terms.plain ⟨0⟩ ⟨0⟩ ()).play Terms.plain
      (asking ++ [.take .disconnect, .proceed, .proceed, .proceed])
    rig.course.Waits ∧ rig.course.runner.connection = some ⟨1⟩ ∧
      torn.course.deed Terms.plain .proceed = .teardown ∧
      results 7 (torn.course.turn Terms.plain .proceed).told = [.error .closed] ∧
      ∃ own : List (Turn Nat Unit),
        ((rig.play Terms.plain [.take .disconnect]).play Terms.plain own).gear.closing = [⟨1⟩] := by
  intro rig torn
  have waits : rig.course.Waits := ⟨rfl, rfl⟩
  have held : rig.course.runner.connection = some ⟨1⟩ := rfl
  have tears : torn.course.deed Terms.plain .proceed = .teardown := rfl
  obtain ⟨_, _, _, parts⟩ := teardown_is_final Terms.plain ⟨0⟩ ⟨0⟩ () asking
  obtain ⟨final, _⟩ := teardown_is_final Terms.plain ⟨0⟩ ⟨0⟩ ()
    (asking ++ [.take .disconnect, .proceed, .proceed, .proceed])
  obtain ⟨_, _, _, ⟨_, once⟩, _⟩ := final .proceed [] tears
  obtain ⟨_, own, _, asked⟩ := parts waits [] ⟨1⟩ (Or.inl held) (by decide)
  refine ⟨waits, held, tears, ?_, own, asked⟩
  exact once (by decide) ⟨⟨1⟩, 0, some ⟨30000000000⟩, 7, true, [0, 0, 1], none⟩ (by decide)

end Rig

/-- Plain terms under which a request may take longer than the steady clock can show. -/
def Terms.endless : Terms Unit :=
  let timeout : Time.Interval := .ofSeconds 18446744073709551615
  { Terms.plain with settings := { Settings.standard with requestTimeout := some timeout } }

/-- A request breaks off, and its id is taken for good, though no request waits any more. -/
theorem Course.id_taken_after_teardown :
    let course := (start Terms.endless ⟨0⟩ ⟨0⟩ ()).play Terms.endless
      ([.submit .ping 7, .proceed, .proceed, .proceed, .take .disconnect, .proceed, .proceed] :
        List (Turn Nat Unit))
    course.deed Terms.endless .proceed = .teardown ∧
      (course.turn Terms.endless .proceed).core.registry.pending = [] ∧
      ⟨1⟩ ∈ (course.turn Terms.endless .proceed).core.registry.inUse := by
  refine ⟨rfl, rfl, ?_⟩
  decide

end Tether.Session
