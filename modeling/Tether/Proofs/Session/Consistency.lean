import Tether.Proofs.Session.Books

/-! Every queued frame of a request should be the frame of one that still waits and has not been
sent. One thing breaks that, and only one: an answer that is handed out while a frame under its id
is queued. It frees the id of the request and leaves the frame behind. -/

namespace Tether.Session

open Message (ClientMessage)
open Time (Instant Timestamp)

variable {κ σ : Type}

namespace Core

/-- Every queued frame of a request is the frame of one that waits under its id and has not been
sent, and no request has two of them. -/
structure Consistent (core : Core κ) : Prop where
  backed : ∀ frame ∈ core.outbox.frames, frame.id ≠ .none →
    ∃ request, core.registry.find? frame.id = some request ∧
      request.frame = frame.bytes ∧ request.sentAt = none
  single : core.outbox.frames.Pairwise fun one other => one.id = other.id → one.id = .none

/-- The deed hands out an answer under the id of a frame that is queued. -/
def Premature (core : Core κ) (deed : Deed κ) : Prop :=
  ∃ frame, deed = .dispatch frame ∧ Envelope.requestIdOf frame ≠ .none ∧
    ∃ queued ∈ core.outbox.frames, queued.id = Envelope.requestIdOf frame

instance (core : Core κ) : (deed : Deed κ) → Decidable (core.Premature deed)
  | .dispatch frame =>
    decidable_of_iff (Envelope.requestIdOf frame ≠ .none ∧
        ∃ queued ∈ core.outbox.frames, queued.id = Envelope.requestIdOf frame)
      ⟨fun early => ⟨frame, rfl, early⟩, fun ⟨_, same, early⟩ => by cases same; exact early⟩
  | .nothing => isFalse nofun
  | .submit _ _ => isFalse nofun
  | .notify _ => isFalse nofun
  | .abandon _ => isFalse nofun
  | .ship _ _ => isFalse nofun
  | .requeue => isFalse nofun
  | .sweep => isFalse nofun
  | .teardown => isFalse nofun

theorem consistent_empty (capacity : Nat) : (empty capacity : Core κ).Consistent :=
  ⟨fun _ member => absurd member List.not_mem_nil, List.Pairwise.nil⟩

theorem Consistent.of_sublist {core next : Core κ} (consistent : core.Consistent)
    (orderly : next.Orderly) (fewer : next.outbox.frames.Sublist core.outbox.frames)
    (stays : ∀ request ∈ core.registry.pending, request.sentAt = none →
      ∀ frame ∈ next.outbox.frames, frame.id = request.id → frame.id ≠ .none →
        ∃ later ∈ next.registry.pending,
          later.id = request.id ∧ later.frame = request.frame ∧ later.sentAt = none) :
    next.Consistent := by
  refine ⟨?_, consistent.single.sublist fewer⟩
  intro frame member proper
  obtain ⟨request, found, same, unsent⟩ := consistent.backed frame (fewer.subset member) proper
  obtain ⟨waits, named⟩ := Registry.find?_eq_some found
  obtain ⟨later, waitsLater, id, bytes, unsentLater⟩ :=
    stays request waits unsent frame member named.symm proper
  refine ⟨later, ?_, bytes.trans same, unsentLater⟩
  rw [← named, ← id]
  exact orderly.registry.find?_eq_some waitsLater

/-- Frames of new requests may come, as long as the old requests stay. -/
theorem Consistent.of_stays {core next : Core κ} (consistent : core.Consistent)
    (orderly : next.Orderly)
    (single : next.outbox.frames.Pairwise fun one other => one.id = other.id → one.id = .none)
    (stays : ∀ request ∈ core.registry.pending, request.sentAt = none →
      request ∈ next.registry.pending)
    (backed : ∀ frame ∈ next.outbox.frames, frame ∈ core.outbox.frames ∨ (frame.id ≠ .none →
      ∃ request ∈ next.registry.pending,
        request.id = frame.id ∧ request.frame = frame.bytes ∧ request.sentAt = none)) :
    next.Consistent := by
  refine ⟨?_, single⟩
  intro frame member proper
  rcases backed frame member with older | new
  · obtain ⟨request, found, same, unsent⟩ := consistent.backed frame older proper
    obtain ⟨waits, named⟩ := Registry.find?_eq_some found
    refine ⟨request, ?_, same, unsent⟩
    rw [← named]
    exact orderly.registry.find?_eq_some (stays request waits unsent)
  · obtain ⟨request, waits, named, same, unsent⟩ := new proper
    refine ⟨request, ?_, same, unsent⟩
    rw [← named]
    exact orderly.registry.find?_eq_some waits

/-- No frame is queued under an id that is free. -/
theorem Consistent.unqueued {core : Core κ} (consistent : core.Consistent) (orderly : core.Orderly)
    {id : RequestId} (proper : id ≠ .none) (fresh : id ∉ core.registry.inUse) :
    ∀ frame ∈ core.outbox.frames, frame.id ≠ id := by
  rintro frame queued rfl
  obtain ⟨request, found, _⟩ := consistent.backed frame queued proper
  obtain ⟨waits, named⟩ := Registry.find?_eq_some found
  exact orderly.registry.vacant fresh request waits named

variable (terms : Terms σ)

theorem Consistent.submit {core : Core κ} (consistent : core.Consistent) (orderly : core.Orderly)
    (now : Instant) (message : ClientMessage) (caller : κ) :
    (core.submit terms.signing terms.settings now message caller).2.Consistent := by
  have after := orderly.submit terms now message caller
  rcases core.submit_cases terms.signing terms.settings now message caller with
    ⟨id, taken, deadline, frame, allocated, encoded, same⟩ | same |
      ⟨id, taken, allocated, same | same⟩
  · obtain ⟨proper, fresh⟩ := Registry.allocate_fresh allocated
    obtain ⟨_, rfl⟩ := Registry.allocate_eq_ok allocated
    rw [same] at after ⊢
    refine consistent.of_stays after ?_ ?_ ?_
    · refine List.pairwise_append.mpr ⟨consistent.single, List.pairwise_singleton _ _, ?_⟩
      intro queued older new last clash
      rw [List.mem_singleton.mp last] at clash
      exact absurd clash (consistent.unqueued orderly proper fresh queued older)
    · intro request waits _
      exact List.mem_append_left _ waits
    · intro queued member
      refine (List.mem_append.mp member).imp_right fun last _ => ?_
      rw [List.mem_singleton.mp last]
      exact ⟨_, List.mem_append_right _ (List.mem_singleton_self _), rfl, rfl, rfl⟩
  · rw [same]
    exact consistent
  · obtain ⟨_, rfl⟩ := Registry.allocate_eq_ok allocated
    rw [same] at after ⊢
    exact consistent.of_sublist after (List.Sublist.refl _)
      fun request waits unsent _ _ _ _ => ⟨request, waits, rfl, rfl, unsent⟩
  · rw [same, orderly.registry.free_taken allocated] at after ⊢
    exact consistent.of_sublist after (List.Sublist.refl _)
      fun request waits unsent _ _ _ _ => ⟨request, waits, rfl, rfl, unsent⟩

theorem Consistent.notify {core next : Core κ} (consistent : core.Consistent)
    (orderly : core.Orderly) {message : ClientMessage}
    (notified : core.notify terms.signing message = .ok next) : next.Consistent := by
  have after := orderly.notify terms notified
  obtain ⟨frame, _, rfl⟩ := notify_eq_ok notified
  refine consistent.of_stays after ?_ (fun request waits _ => waits) ?_
  · refine List.pairwise_append.mpr ⟨consistent.single, List.pairwise_singleton _ _, ?_⟩
    intro queued _ new last clash
    rw [List.mem_singleton.mp last] at clash
    exact clash
  · intro queued member
    refine (List.mem_append.mp member).imp_right fun last proper => ?_
    rw [List.mem_singleton.mp last] at proper
    exact absurd rfl proper

/-- The frames that stay belong to none of the requests that were sent. -/
theorem Consistent.ship {core : Core κ} (consistent : core.Consistent) (orderly : core.Orderly)
    (count : Nat) (time : Timestamp) : (core.ship count time).Consistent := by
  refine consistent.of_sublist (orderly.ship count time) (List.drop_sublist ..) ?_
  intro request waits unsent frame stays named proper
  have apart := consistent.single
  rw [← List.take_append_drop count core.outbox.frames] at apart
  have unshipped : request.id ∉ (core.outbox.frames.take count).map QueuedFrame.id := by
    intro member
    obtain ⟨shipped, goes, same⟩ := List.mem_map.mp member
    have none := (List.pairwise_append.mp apart).2.2 shipped goes frame stays
          (same.trans named.symm)
    exact proper (named.trans (same.symm.trans none))
  refine ⟨request, List.mem_map.mpr ⟨request, waits, if_neg unshipped⟩, rfl, rfl, unsent⟩

/-- What is put back was sent, so it was not queued. -/
theorem Consistent.requeueUnanswered {core : Core κ} (consistent : core.Consistent)
    (orderly : core.Orderly) : core.requeueUnanswered.Consistent := by
  have after := orderly.requeueUnanswered
  have again (frame : QueuedFrame) (member : frame ∈ core.registry.unanswered.map fun entry =>
      (⟨entry.1, entry.2⟩ : QueuedFrame)) :
      ∃ request ∈ core.registry.pending, request.sentAt.isSome ∧
        request.id = frame.id ∧ request.frame = frame.bytes := by
    obtain ⟨entry, unanswered, rfl⟩ := List.mem_map.mp member
    obtain ⟨request, sent, rfl⟩ := List.mem_map.mp unanswered
    obtain ⟨waits, written⟩ := List.mem_filter.mp sent
    exact ⟨request, waits, written, rfl, rfl⟩
  refine consistent.of_stays after ?_ ?_ ?_
  · refine List.pairwise_append.mpr ⟨?_, consistent.single, ?_⟩
    · have distinct := orderly.registry.distinct.sublist
        (List.filter_sublist.map Pending.id :
          (((core.registry.pending.filter fun request => request.sentAt.isSome).map
            Pending.id).Sublist _))
      rw [Registry.unanswered, List.map_map, List.pairwise_map]
      exact (List.pairwise_map.mp distinct).imp fun apart same => absurd same apart
    · intro frame member queued older same
      obtain ⟨request, waits, sent, named, _⟩ := again frame member
      by_contra proper
      obtain ⟨other, found, _, unsent⟩ := consistent.backed queued older (same ▸ proper)
      rw [← same, ← named, orderly.registry.find?_eq_some waits] at found
      rw [← Option.some.inj found] at unsent
      simp [unsent] at sent
  · intro request waits unsent
    refine List.mem_map.mpr ⟨request, waits, ?_⟩
    rw [← unsent]
  · intro frame member
    rcases List.mem_append.mp member with new | older
    · obtain ⟨request, waits, _, named, same⟩ := again frame new
      refine Or.inr fun _ => ⟨{ request with sentAt := none }, ?_, named, same, rfl⟩
      exact List.mem_map.mpr ⟨request, waits, rfl⟩
    · exact Or.inl older

/-- An answer that is not premature frees an id that no frame is queued under. -/
theorem Consistent.dispatch {core : Core κ} (consistent : core.Consistent) (orderly : core.Orderly)
    {frame : Bytes} (timely : ¬ core.Premature (.dispatch frame)) :
    (core.dispatch terms.signing frame).core.Consistent := by
  have after := orderly.dispatch terms frame
  rcases core.dispatch_cases terms.signing frame with ⟨same, _⟩ | ⟨_, _, proper, _, freed, _⟩
  · rw [same]
    exact consistent
  · rw [freed] at after ⊢
    refine consistent.of_sublist after (List.Sublist.refl _) ?_
    intro request waits unsent queued member named _
    refine ⟨request, List.mem_filter.mpr ⟨waits, ?_⟩, rfl, rfl, unsent⟩
    have other : request.id ≠ Envelope.requestIdOf frame := fun same =>
      timely ⟨frame, rfl, proper, queued, member, named.trans same⟩
    simpa using other

theorem Consistent.sweep {core : Core κ} (consistent : core.Consistent) (orderly : core.Orderly)
    (now : Instant) : (core.sweep now).1.Consistent := by
  refine consistent.of_sublist (orderly.sweep now) ?_ ?_
  · rw [frames_sweep]
    exact List.filter_sublist
  · intro request waits unsent frame member named _
    rw [frames_sweep] at member
    have kept := (List.mem_filter.mp member).2
    refine ⟨request, ?_, rfl, rfl, unsent⟩
    rw [pending_sweep]
    exact List.mem_filter.mpr ⟨waits, named ▸ kept⟩

/-- Books stay consistent through every deed but a premature answer. -/
theorem Consistent.after [DecidableEq κ] {core : Core κ} (consistent : core.Consistent)
    (orderly : core.Orderly) (now : Instant) (time : Timestamp) {deed : Deed κ}
    (timely : ¬ core.Premature deed) : (core.after terms now time deed).Consistent := by
  cases deed with
  | nothing => exact consistent
  | submit message caller => exact consistent.submit terms orderly now message caller
  | notify message =>
    cases notified : core.notify terms.signing message with
    | ok next =>
      simp only [Core.after, notified]
      exact consistent.notify terms orderly notified
    | error cause =>
      simp only [Core.after, notified]
      exact consistent
  | abandon caller =>
    refine consistent.of_sublist (orderly.after terms now time (.abandon caller))
      (List.Sublist.refl _) ?_
    intro request waits unsent _ _ _ _
    refine ⟨_, List.mem_map.mpr ⟨request, waits, rfl⟩, ?_⟩
    split
    · exact ⟨rfl, rfl, unsent⟩
    · exact ⟨rfl, rfl, unsent⟩
  | ship line count => exact consistent.ship orderly count time
  | requeue => exact consistent.requeueUnanswered orderly
  | dispatch frame => exact consistent.dispatch terms orderly timely
  | sweep => exact consistent.sweep orderly now
  | teardown => exact ⟨fun _ member => absurd member List.not_mem_nil, List.Pairwise.nil⟩

/-- A premature answer leaves a frame without request. -/
theorem Consistent.not_after [DecidableEq κ] {core : Core κ} (consistent : core.Consistent)
    (now : Instant) (time : Timestamp) {deed : Deed κ} (early : core.Premature deed) :
    ¬ (core.after terms now time deed).Consistent := by
  obtain ⟨frame, rfl, proper, queued, member, named⟩ := early
  intro later
  obtain ⟨request, found, _⟩ := consistent.backed queued member (named ▸ proper)
  simp only [Core.after] at later
  rcases core.dispatch_cases terms.signing frame with
    ⟨_, _, zero | absent⟩ | ⟨_, _, _, _, freed, _⟩
  · exact proper zero
  · rw [named, absent] at found
    cases found
  · rw [freed] at later
    obtain ⟨other, again, _⟩ := later.backed queued member (named ▸ proper)
    obtain ⟨waits, same⟩ := Registry.find?_eq_some again
    have gone := (List.mem_filter.mp waits).2
    simp [same, named] at gone

end Core

namespace Course

variable [DecidableEq κ] (terms : Terms σ)

theorem forall_turns_cons (holds : Course κ σ → Turn κ σ → Prop) (course : Course κ σ)
    (next : Turn κ σ) (turns : List (Turn κ σ)) :
    (∀ count later, (next :: turns)[count]? = some later →
        holds (course.play terms ((next :: turns).take count)) later) ↔
      holds course next ∧ ∀ count later, turns[count]? = some later →
        holds ((course.turn terms next).play terms (turns.take count)) later := by
  constructor
  · intro always
    exact ⟨always 0 next rfl, fun count later there => always (count + 1) later there⟩
  · rintro ⟨first, rest⟩ count later there
    cases count with
    | zero =>
      cases there
      exact first
    | succ count => exact rest count later there

/-- What can be decided of a turn can be decided of all turns of a course. -/
def decidableTurns (holds : Course κ σ → Turn κ σ → Prop)
    [∀ course next, Decidable (holds course next)] (course : Course κ σ) :
    (turns : List (Turn κ σ)) → Decidable (∀ count next, turns[count]? = some next →
      holds (course.play terms (turns.take count)) next)
  | [] => isTrue fun _ _ there => nomatch there
  | next :: turns =>
    have := decidableTurns holds (course.turn terms next) turns
    decidable_of_iff _ (forall_turns_cons terms holds course next turns).symm

/-- No answer is handed out while a frame under its id is queued. It may have arrived long before,
when no such frame was. -/
def Timely (course : Course κ σ) (turns : List (Turn κ σ)) : Prop :=
  ∀ count next, turns[count]? = some next →
    ¬ (course.play terms (turns.take count)).core.Premature
      ((course.play terms (turns.take count)).deed terms next)

instance (course : Course κ σ) (turns : List (Turn κ σ)) : Decidable (course.Timely terms turns) :=
  decidableTurns terms (fun course next => ¬ course.core.Premature (course.deed terms next))
    course turns

theorem consistent_of_timely (now : Instant) (time : Timestamp) (rest : σ) {turns : List (Turn κ σ)}
    (timely : (start terms now time rest).Timely terms turns) (count : Nat) :
    ((start terms now time rest).play terms (turns.take count)).core.Consistent := by
  refine Turn.take_induction turns count ?_ ?_
  · exact Core.consistent_empty _
  · intro count next there consistent
    rw [play_concat, (turn_does terms _ next).1]
    exact consistent.after terms (orderly_play terms now time rest _) _ _ (timely count next there)

/-- Registry and outbox are consistent at every moment of a course if and only if no answer is handed
out while a frame under its id is queued. -/
theorem consistent_iff (now : Instant) (time : Timestamp) (rest : σ) (turns : List (Turn κ σ)) :
    (∀ count, ((start terms now time rest).play terms (turns.take count)).core.Consistent) ↔
      (start terms now time rest).Timely terms turns := by
  constructor
  · intro consistent count next there early
    have later := consistent (count + 1)
    rw [List.take_add_one, there, Option.toList_some, play_concat, (turn_does terms _ next).1]
      at later
    exact (consistent count).not_after terms _ _ early later
  · intro timely count
    exact consistent_of_timely terms now time rest timely count

/-- The server answers a request that was never sent, and its frame stays behind without it. -/
theorem orphaned_frame :
    ¬ ((start Terms.plain ⟨0⟩ ⟨0⟩ ()).play Terms.plain
      ([.proceed, .proceed, .proceed, .openLine .first, .take .report, .proceed, .proceed, .proceed,
        .submit .ping 0, .arrive .first [0, 0, 1], .take .report, .proceed, .proceed] :
        List (Turn Nat Unit))).core.Consistent := by
  intro consistent
  obtain ⟨request, found, _⟩ :=
    consistent.backed ⟨⟨1⟩, [0, 0, 1]⟩ (List.mem_singleton.mpr rfl) (by decide)
  cases found

end Course

end Tether.Session
