import Tether.Proofs.Session.Books
import Tether.Proofs.Session.Phase

namespace Tether.Session

open Message (ClientMessage)
open Time (Instant Timestamp)
open Transport (ConnectionId)

variable {κ σ : Type}

namespace Core

def Queued (core : Core κ) (request : Pending κ) : Prop :=
  ⟨request.id, request.frame⟩ ∈ core.outbox.frames

/-- Every request is queued, or counts as sent and was sent. -/
def Accounted (core : Core κ) (sent : RequestId → Prop) : Prop :=
  ∀ request ∈ core.registry.pending,
    core.Queued request ∨ request.sentAt.isSome ∧ sent request.id

variable {core : Core κ} {sent : RequestId → Prop}

theorem Accounted.mono (accounted : core.Accounted sent) {later : RequestId → Prop}
    (implies : ∀ id, sent id → later id) : core.Accounted later := by
  intro request waits
  exact (accounted request waits).imp_right fun ⟨noted, was⟩ => ⟨noted, implies _ was⟩

/-- Requests may end, and frames may leave that belong to none of those that stay. -/
private theorem Accounted.of_subset (accounted : core.Accounted sent) {next : Core κ}
    (requests : ∀ request ∈ next.registry.pending,
      ∃ old ∈ core.registry.pending, old.id = request.id ∧ old.frame = request.frame ∧
        old.sentAt = request.sentAt)
    (frames : ∀ request ∈ next.registry.pending, ∀ frame ∈ core.outbox.frames,
      frame.id = request.id → frame ∈ next.outbox.frames) :
    next.Accounted sent := by
  intro request waits
  obtain ⟨old, waited, id, frame, noted⟩ := requests request waits
  have before := accounted old waited
  unfold Queued at before ⊢
  rw [id, frame, noted] at before
  exact before.imp_left fun queued => frames request waits _ queued rfl

variable (terms : Terms σ)

private theorem Accounted.submit (accounted : core.Accounted sent) (now : Instant)
    (message : ClientMessage) (caller : κ) :
    (core.submit terms.signing terms.settings now message caller).2.Accounted sent := by
  rcases core.submit_admits_or terms.signing terms.settings now message caller with
    ⟨id, taken, deadline, frame, allocated, _, same⟩ | ⟨same, fewer⟩
  · obtain ⟨_, rfl⟩ := Registry.allocate_eq_ok allocated
    rw [same]
    intro request waits
    rcases List.mem_append.mp waits with waited | new
    · exact (accounted request waited).imp_left (List.mem_append_left _)
    · rw [List.mem_singleton.mp new]
      exact Or.inl (List.mem_append_right _ (List.mem_singleton_self _))
  · refine accounted.of_subset ?_ fun _ _ frame queued _ => same ▸ queued
    exact fun request waits => ⟨request, fewer.subset waits, rfl, rfl, rfl⟩

private theorem Accounted.ship (accounted : core.Accounted sent) (count : Nat) (time : Timestamp) :
    (core.ship count time).Accounted fun id =>
      sent id ∨ ∃ frame ∈ core.outbox.frames.take count, frame.id = id := by
  intro request waits
  obtain ⟨old, waited, rfl⟩ := List.mem_map.mp waits
  by_cases shipped : old.id ∈ (core.outbox.frames.take count).map QueuedFrame.id
  · rw [if_pos shipped]
    exact Or.inr ⟨rfl, Or.inr (List.mem_map.mp shipped)⟩
  · rw [if_neg shipped]
    refine (accounted old waited).imp ?_ fun ⟨noted, was⟩ => ⟨noted, Or.inl was⟩
    intro queued
    have there : (⟨old.id, old.frame⟩ : QueuedFrame) ∈
        core.outbox.frames.take count ++ core.outbox.frames.drop count := by
      rw [List.take_append_drop]
      exact queued
    rcases List.mem_append.mp there with goes | stays
    · exact absurd (List.mem_map.mpr ⟨_, goes, rfl⟩) shipped
    · exact stays

private theorem Accounted.requeueUnanswered (accounted : core.Accounted sent) :
    core.requeueUnanswered.Accounted fun _ => False := by
  intro request waits
  obtain ⟨old, waited, rfl⟩ := List.mem_map.mp waits
  left
  rcases accounted old waited with queued | ⟨noted, _⟩
  · exact List.mem_append_right _ queued
  · refine List.mem_append_left _ (List.mem_map.mpr ⟨(old.id, old.frame), ?_, rfl⟩)
    exact List.mem_map.mpr ⟨old, List.mem_filter.mpr ⟨waited, noted⟩, rfl⟩

private theorem Accounted.dispatch (accounted : core.Accounted sent) (signing : Signing)
    (frame : Bytes) : (core.dispatch signing frame).core.Accounted sent := by
  rcases core.dispatch_cases signing frame with ⟨same, _⟩ | ⟨_, _, _, _, freed, _⟩
  · rw [same]
    exact accounted
  · rw [freed]
    refine accounted.of_subset ?_ fun _ _ _ queued _ => queued
    intro request waits
    exact ⟨request, List.mem_of_mem_filter waits, rfl, rfl, rfl⟩

/-- The sweep takes frames out of the queue only with their requests. -/
private theorem Accounted.sweep (accounted : core.Accounted sent) (now : Instant) :
    (core.sweep now).1.Accounted sent := by
  refine accounted.of_subset ?_ ?_
  · intro request waits
    rw [pending_sweep] at waits
    exact ⟨request, List.mem_of_mem_filter waits, rfl, rfl, rfl⟩
  · intro request waits frame queued same
    rw [pending_sweep] at waits
    rw [frames_sweep]
    refine List.mem_filter.mpr ⟨queued, ?_⟩
    rw [same]
    exact (List.mem_filter.mp waits).2

/-- A deed loses sight of no request, but for what counts as sent when requests are put back. -/
theorem Accounted.after [DecidableEq κ] (accounted : core.Accounted sent) (orderly : core.Orderly)
    (now : Instant) (time : Timestamp) (deed : Deed κ) :
    (core.after terms now time deed).Accounted fun id =>
      (sent id ∧ deed ≠ .requeue ∧ deed ≠ .teardown) ∨
        ∃ line frame, (line, frame) ∈ deed.written core ∧ Envelope.requestIdOf frame = id := by
  have goesOn (kept : deed ≠ .requeue ∧ deed ≠ .teardown) (id : RequestId) (was : sent id) :
      (sent id ∧ deed ≠ .requeue ∧ deed ≠ .teardown) ∨
        ∃ line frame, (line, frame) ∈ deed.written core ∧ Envelope.requestIdOf frame = id :=
    Or.inl ⟨was, kept⟩
  cases deed with
  | nothing => exact accounted.mono (goesOn (by simp))
  | submit message caller =>
    exact (accounted.submit terms now message caller).mono (goesOn (by simp))
  | notify message =>
    refine Accounted.mono ?_ (goesOn (by simp))
    rcases core.after_notify_cases terms now time message with same | ⟨_, frame, same⟩
    · rw [same]
      exact accounted
    · rw [same]
      exact fun request waits => (accounted request waits).imp_left (List.mem_append_left _)
  | abandon caller =>
    refine Accounted.mono ?_ (goesOn (by simp))
    refine accounted.of_subset ?_ fun _ _ _ queued _ => queued
    intro request waits
    obtain ⟨old, waited, rfl⟩ := List.mem_map.mp waits
    refine ⟨old, waited, ?_⟩
    split <;> exact ⟨rfl, rfl, rfl⟩
  | ship line count =>
    refine (accounted.ship count time).mono ?_
    rintro id (was | ⟨frame, shipped, rfl⟩)
    · exact goesOn (by simp) id was
    · refine Or.inr ⟨line, frame.bytes, List.mem_map.mpr ⟨frame, shipped, rfl⟩, ?_⟩
      exact orderly.addressed frame (List.mem_of_mem_take shipped)
  | requeue => exact accounted.requeueUnanswered.mono fun _ impossible => impossible.elim
  | dispatch frame => exact (accounted.dispatch terms.signing frame).mono (goesOn (by simp))
  | sweep => exact (accounted.sweep now).mono (goesOn (by simp))
  | teardown =>
    intro request waits
    simp only [Core.after, failPending, Registry.pending_rejectAll] at waits
    cases waits

end Core

theorem Lifecycle.handle_of_connected (machine : Lifecycle) (event : Event)
    (connected : machine.state = .connected) (resends : machine.resend = true) :
    (machine.handle event).1.state = .connected ∧
        .dropTransport ∉ (machine.handle event).2 ∨
      .requeueUnanswered ∈ (machine.handle event).2 ∨ .failPending ∈ (machine.handle event).2 := by
  obtain ⟨state, backoff, resend, failures⟩ := machine
  subst connected resends
  cases event with
  | closed frame =>
    simp only [handle]
    split <;> simp [onLoss]
  | _ => simp [handle, onLoss]

namespace Course

/-- The session is about to put requests back, or to end them all. -/
def Owes (course : Course κ σ) : Prop :=
  .requeueUnanswered ∈ course.work.actions ∨ .failPending ∈ course.work.actions

/-- The session has a connection that it is not about to let go. -/
def OnLine (course : Course κ σ) (line : ConnectionId) : Prop :=
  course.state = .connected ∧ course.held = some line

/-- A frame under an id was taken by the connection that the session has, or the session is about to
put the request back. -/
def Sent (course : Course κ σ) (id : RequestId) : Prop :=
  course.Owes ∨ ∃ line frame, course.OnLine line ∧ (line, frame) ∈ course.wires.accepted ∧
    Envelope.requestIdOf frame = id

variable [DecidableEq κ] (terms : Terms σ)

theorem resend_turn (course : Course κ σ) (next : Turn κ σ) :
    (course.turn terms next).runner.lifecycle.resend = course.runner.lifecycle.resend := by
  rcases course.turn_cases terms next with
    ⟨_, lifecycle, _, _⟩ | ⟨choice, _, waits, attends⟩ | ⟨_, advances⟩
  · rw [lifecycle]
  · rw [attends, (attend_leaves terms waits.1 choice).1]
  · rw [advances]
    rcases course.advance_cases terms with
      same | ⟨action, _, _, _, _, acts⟩ | ⟨event, _, _, handles⟩ | ⟨_, _, publishes⟩
    · rw [same]
    · rw [acts]
      exact congrArg Lifecycle.resend
        (Runner.perform_leaves terms course.now course.time course.runner action).1
    · rw [handles]
      exact course.runner.lifecycle.resend_handle event
    · rw [publishes]

/-- A session loses its connection only with something owed to its requests. -/
theorem Sound.onLine_turn {course : Course κ σ} (sound : course.Sound)
    (resends : course.runner.lifecycle.resend = true) {line : ConnectionId}
    (onLine : course.OnLine line) (next : Turn κ σ) :
    (course.turn terms next).OnLine line ∨ (course.turn terms next).Owes := by
  obtain ⟨connected, holds⟩ := onLine
  rcases course.turn_cases terms next with
    ⟨work, lifecycle, connection, _⟩ | ⟨choice, _, ⟨idle, _⟩, attends⟩ | ⟨_, advances⟩
  · left
    unfold OnLine state held
    rw [work, lifecycle, connection]
    exact ⟨connected, holds⟩
  · obtain ⟨lifecycle, actions, connection⟩ := attend_leaves terms idle choice
    left
    unfold OnLine state held
    rw [attends, lifecycle, actions]
    refine ⟨connected, ?_⟩
    rcases connection with same | ⟨id, reports, queued, _⟩
    · rw [same]
      simpa [held, idle, Work.actions] using holds
    · have rests := sound.rests_of_waiting idle
      rw [connected, queued, List.countP_cons] at rests
      exact absurd rests (Nat.succ_ne_zero _)
  · rw [advances]
    rcases course.advance_cases terms with
      same | ⟨action, actions, events, work, _, acts⟩ | ⟨event, events, work, handles⟩ |
        ⟨_, work, publishes⟩
    · rw [same]
      exact Or.inl ⟨connected, holds⟩
    · obtain ⟨state, held⟩ := sound.held_of_action terms work acts
      left
      unfold OnLine
      rw [state, held]
      exact ⟨connected, holds⟩
    · rw [handles]
      rcases course.runner.lifecycle.handle_of_connected event connected resends with
        ⟨stays, keeps⟩ | owes
      · refine Or.inl ⟨stays, ?_⟩
        simpa [held, work, Work.actions, keeps] using holds
      · exact Or.inr owes
    · rw [publishes]
      refine Or.inl ⟨connected, ?_⟩
      simpa [held, work, Work.actions] using holds

theorem owes_turn {course : Course κ σ} (owes : course.Owes) (next : Turn κ σ) :
    (course.turn terms next).Owes ∨ course.deed terms next = .requeue ∨
      course.deed terms next = .teardown := by
  rcases course.turn_cases terms next with
    ⟨work, _, _, _⟩ | ⟨choice, _, ⟨idle, _⟩, _⟩ | ⟨rfl, advances⟩
  · left
    unfold Owes
    rw [work]
    exact owes
  · rcases owes with member | member
    · rw [idle] at member
      cases member
    · rw [idle] at member
      cases member
  · rw [advances]
    rcases course.advance_cases terms with
      same | ⟨action, actions, events, work, runs, acts⟩ | ⟨event, events, work, _⟩ | ⟨_, work, _⟩
    · rw [same]
      exact Or.inl owes
    · have deed : course.deed terms .proceed =
          course.runner.deed (terms.outside course.now course.time) action := by
        simp [Course.deed, work, runs]
      rw [deed, acts]
      rcases owes with member | member
      · rw [work] at member
        rcases List.mem_cons.mp member with rfl | later
        · exact Or.inr (Or.inl rfl)
        · exact Or.inl (Or.inl later)
      · rw [work] at member
        rcases List.mem_cons.mp member with rfl | later
        · exact Or.inr (Or.inr rfl)
        · exact Or.inl (Or.inr later)
    · rcases owes with member | member <;>
      · rw [work] at member
        cases member
    · rcases owes with member | member <;>
      · rw [work] at member
        cases member

private theorem Sound.sent_of_written {course : Course κ σ} (sound : course.Sound)
    (resends : course.runner.lifecycle.resend = true) {next : Turn κ σ} {line : ConnectionId}
    {frame : Bytes} (written : (line, frame) ∈ (course.deed terms next).written course.core) :
    (course.turn terms next).Sent (Envelope.requestIdOf frame) := by
  cases deed : course.deed terms next with
  | ship current count =>
    have there := written
    rw [deed] at there
    obtain ⟨_, _, same⟩ := List.mem_map.mp there
    obtain rfl : current = line := congrArg Prod.fst same
    obtain ⟨connected, _⟩ := deed_eq_ship terms deed
    rcases sound.onLine_turn terms resends ⟨connected, sound.held_of_ship terms deed⟩ next with
      stays | owes
    · refine Or.inr ⟨current, frame, stays, ?_, rfl⟩
      rw [(turn_does terms course next).2]
      exact List.mem_append_right _ written
    · exact Or.inl owes
  | _ =>
    rw [deed] at written
    cases written

theorem Sound.accounted_turn {course : Course κ σ} (sound : course.Sound)
    (orderly : course.core.Orderly) (resends : course.runner.lifecycle.resend = true)
    (accounted : course.core.Accounted course.Sent) (next : Turn κ σ) :
    (course.turn terms next).core.Accounted (course.turn terms next).Sent := by
  rw [(turn_does terms course next).1]
  refine (accounted.after terms orderly course.now course.time (course.deed terms next)).mono ?_
  rintro id (⟨was, noRequeue, noTeardown⟩ | ⟨line, frame, written, rfl⟩)
  · rcases was with owes | ⟨line, frame, onLine, taken, same⟩
    · rcases owes_turn terms owes next with still | requeues | teardown
      · exact Or.inl still
      · exact absurd requeues noRequeue
      · exact absurd teardown noTeardown
    · rcases sound.onLine_turn terms resends onLine next with stays | owes
      · refine Or.inr ⟨line, frame, stays, ?_, same⟩
        rw [(turn_does terms course next).2]
        exact List.mem_append_left _ taken
      · exact Or.inl owes
  · exact sound.sent_of_written terms resends written

theorem accounted_play (resends : terms.settings.resendUnanswered = true) (now : Instant)
    (time : Timestamp) (rest : σ) (turns : List (Turn κ σ)) :
    ((start terms now time rest).play terms turns).core.Accounted
      ((start terms now time rest).play terms turns).Sent := by
  refine (play_keeps terms
    (fun course => course.Sound ∧ course.core.Orderly ∧ course.runner.lifecycle.resend = true ∧
      course.core.Accounted course.Sent) ?_ _ turns ?_).2.2.2
  · rintro course next ⟨sound, orderly, resending, accounted⟩
    refine ⟨sound.turn terms next, ?_, ?_,
      sound.accounted_turn terms orderly resending accounted next⟩
    · rw [(turn_does terms course next).1]
      exact orderly.after terms course.now course.time _
    · rw [resend_turn terms course next]
      exact resending
  · exact ⟨sound_start terms now time rest, Core.orderly_empty _, resends,
      fun _ member => nomatch member⟩

/-- When a session that sends unanswered requests again has nothing left to do, every request that
waits is queued with its own frame, or the session is connected and its connection has taken a frame
under the id of the request. -/
theorem none_left_behind (resends : terms.settings.resendUnanswered = true) (now : Instant)
    (time : Timestamp) (rest : σ) (turns : List (Turn κ σ))
    (waits : ((start terms now time rest).play terms turns).Waits) :
    ∀ request ∈ ((start terms now time rest).play terms turns).core.registry.pending,
      ⟨request.id, request.frame⟩ ∈
          ((start terms now time rest).play terms turns).core.outbox.frames ∨
        ((start terms now time rest).play terms turns).state = .connected ∧
          ∃ line frame,
            ((start terms now time rest).play terms turns).runner.connection = some line ∧
            (line, frame) ∈ ((start terms now time rest).play terms turns).wires.accepted ∧
            Envelope.requestIdOf frame = request.id := by
  intro request pending
  have idle : ((start terms now time rest).play terms turns).work.actions = [] := by
    rw [waits.1]
    rfl
  rcases accounted_play terms resends now time rest turns request pending with
    queued | ⟨_, owes | ⟨line, frame, ⟨connected, holds⟩, taken, same⟩⟩
  · exact Or.inl queued
  · rcases owes with member | member
    · rw [idle] at member
      cases member
    · rw [idle] at member
      cases member
  · refine Or.inr ⟨connected, line, frame, ?_, taken, same⟩
    simpa [held, idle] using holds

/-- A request is sent, its connection is lost, and it is sent again on the next one. Then another
request is made. -/
def reconnected : Course Nat Unit :=
  (start Terms.plain ⟨0⟩ ⟨0⟩ ()).play Terms.plain
    [.proceed, .proceed, .proceed, .openLine ⟨1⟩, .take .report, .proceed, .proceed, .proceed,
      .submit .ping 0, .take .flush, .breakLine ⟨1⟩ "gone", .take .report, .proceed, .proceed,
      .proceed, .proceed, .proceed, .tick ⟨10000000000⟩ ⟨10000⟩, .take .delay, .proceed, .proceed,
      .proceed, .openLine ⟨2⟩, .take .report, .proceed, .proceed, .proceed, .submit .ping 1]

theorem none_left_behind_reconnected :
    reconnected.Waits ∧ reconnected.core.registry.pending.map Pending.id = [⟨1⟩, ⟨2⟩] ∧
      ∀ request ∈ reconnected.core.registry.pending,
        ⟨request.id, request.frame⟩ ∈ reconnected.core.outbox.frames ∨
          reconnected.state = .connected ∧
            ∃ line frame, reconnected.runner.connection = some line ∧
              (line, frame) ∈ reconnected.wires.accepted ∧
              Envelope.requestIdOf frame = request.id :=
  ⟨⟨rfl, rfl⟩, rfl, none_left_behind Terms.plain rfl ⟨0⟩ ⟨0⟩ () _ ⟨rfl, rfl⟩⟩

end Course

end Tether.Session
