import Mathlib.Data.List.Nodup
import Tether.Proofs.Envelope
import Tether.Proofs.Session.Deed

namespace Tether.Session

open Message (ClientMessage)
open Time (Instant Timestamp)

variable {κ σ : Type}

namespace Registry

/-- Requests wait under distinct proper ids that are taken, with frames that carry them. -/
structure Orderly (registry : Registry κ) : Prop where
  proper : .none ∉ registry.inUse
  taken : ∀ request ∈ registry.pending, request.id ∈ registry.inUse
  distinct : (registry.pending.map Pending.id).Nodup
  addressed : ∀ request ∈ registry.pending, Envelope.requestIdOf request.frame = request.id

variable {registry : Registry κ}

theorem orderly_empty : (empty : Registry κ).Orderly where
  proper := IdSet.not_mem_empty _
  taken _ member := nomatch member
  distinct := List.nodup_nil
  addressed _ member := nomatch member

theorem Orderly.id_ne_none (orderly : registry.Orderly) {request : Pending κ}
    (waits : request ∈ registry.pending) : request.id ≠ .none := by
  intro zero
  exact orderly.proper (zero ▸ orderly.taken request waits)

theorem Orderly.eq_of_id_eq (orderly : registry.Orderly) {one other : Pending κ}
    (first : one ∈ registry.pending) (second : other ∈ registry.pending)
    (same : one.id = other.id) : one = other :=
  List.inj_on_of_nodup_map orderly.distinct first second same

theorem Orderly.find?_eq_some (orderly : registry.Orderly) {request : Pending κ}
    (waits : request ∈ registry.pending) : registry.find? request.id = some request := by
  cases found : registry.find? request.id with
  | none => exact absurd rfl (find?_eq_none.mp found request waits)
  | some other =>
    obtain ⟨member, same⟩ := Registry.find?_eq_some found
    rw [orderly.eq_of_id_eq member waits same]

/-- Nobody waits under an id that is free. -/
theorem Orderly.vacant (orderly : registry.Orderly) {id : RequestId} (fresh : id ∉ registry.inUse) :
    ∀ request ∈ registry.pending, request.id ≠ id := by
  rintro request waits rfl
  exact fresh (orderly.taken request waits)

/-- Freeing the id that was taken last undoes all but the move of the cursor. -/
theorem Orderly.free_taken (orderly : registry.Orderly) {id : RequestId} {taken : Registry κ}
    (allocated : registry.allocate = .ok (id, taken)) :
    taken.free id = { registry with cursor := id.byte } := by
  have fresh := (allocate_fresh allocated).2
  have spared := filter_id_ne_of_find?_eq_none (find?_eq_none.mpr (orderly.vacant fresh))
  obtain ⟨_, rfl⟩ := allocate_eq_ok allocated
  change (⟨(registry.inUse.insert id).erase id, id.byte,
    registry.pending.filter fun request => request.id ≠ id⟩ : Registry κ) = _
  rw [IdSet.erase_insert fresh, spared]

theorem Orderly.allocate (orderly : registry.Orderly) {id : RequestId} {taken : Registry κ}
    (allocated : registry.allocate = .ok (id, taken)) : taken.Orderly := by
  obtain ⟨proper, _⟩ := allocate_fresh allocated
  obtain ⟨_, rfl⟩ := allocate_eq_ok allocated
  refine ⟨?_, ?_, orderly.distinct, orderly.addressed⟩
  · intro member
    rcases IdSet.mem_insert.mp member with same | older
    · exact proper same.symm
    · exact orderly.proper older
  · intro request waits
    exact IdSet.mem_insert.mpr (Or.inr (orderly.taken request waits))

theorem Orderly.freeAll (orderly : registry.Orderly) (ids : List RequestId) :
    (ids.foldl free registry).Orderly := by
  have stays : (ids.foldl free registry).pending.Sublist registry.pending := by
    rw [pending_freeAll]
    exact List.filter_sublist
  refine ⟨?_, ?_, orderly.distinct.sublist (stays.map _), ?_⟩
  · intro member
    exact orderly.proper ((mem_inUse_freeAll registry ids _).mp member).1
  · intro request waits
    rw [pending_freeAll] at waits
    obtain ⟨waited, kept⟩ := List.mem_filter.mp waits
    exact (mem_inUse_freeAll registry ids _).mpr
      ⟨orderly.taken request waited, by simpa using kept⟩
  · intro request waits
    exact orderly.addressed request (stays.subset waits)

theorem Orderly.free (orderly : registry.Orderly) (id : RequestId) : (registry.free id).Orderly :=
  orderly.freeAll [id]

theorem Orderly.change (orderly : registry.Orderly) {change : Pending κ → Pending κ}
    (keeps : ∀ request, (change request).id = request.id ∧ (change request).frame = request.frame) :
    Orderly { registry with pending := registry.pending.map change } where
  proper := orderly.proper
  taken request waits := by
    obtain ⟨old, waited, rfl⟩ := List.mem_map.mp waits
    rw [(keeps old).1]
    exact orderly.taken old waited
  distinct := by
    rw [ids_map fun request => (keeps request).1]
    exact orderly.distinct
  addressed request waits := by
    obtain ⟨old, waited, rfl⟩ := List.mem_map.mp waits
    rw [(keeps old).1, (keeps old).2]
    exact orderly.addressed old waited

theorem Orderly.join (orderly : registry.Orderly) {taken : Registry κ} (request : Pending κ)
    (allocated : registry.allocate = .ok (request.id, taken))
    (addressed : Envelope.requestIdOf request.frame = request.id) :
    Orderly { taken with pending := taken.pending ++ [request] } := by
  have fresh := (allocate_fresh allocated).2
  have after := orderly.allocate allocated
  obtain ⟨_, rfl⟩ := allocate_eq_ok allocated
  refine ⟨after.proper, ?_, ?_, ?_⟩
  · intro other waits
    rcases List.mem_append.mp waits with waited | new
    · exact after.taken other waited
    · rw [List.mem_singleton.mp new]
      exact IdSet.mem_insert.mpr (Or.inl rfl)
  · rw [List.map_append, List.nodup_append]
    refine ⟨orderly.distinct, List.nodup_singleton _, ?_⟩
    rintro _ waited _ new rfl
    obtain ⟨old, member, same⟩ := List.mem_map.mp waited
    rw [List.map_singleton, List.mem_singleton] at new
    exact orderly.vacant fresh old member (same.trans new)
  · intro other waits
    rcases List.mem_append.mp waits with waited | new
    · exact orderly.addressed other waited
    · rw [List.mem_singleton.mp new]
      exact addressed

end Registry

/-- What never changes about a request while it waits. -/
def Pending.face (request : Pending κ) : RequestId × Bytes × κ :=
  (request.id, request.frame, request.caller)

namespace Core

/-- The registry is in order, and queued frames carry the ids that they are queued under. -/
structure Orderly (core : Core κ) : Prop where
  registry : core.registry.Orderly
  addressed : ∀ frame ∈ core.outbox.frames, Envelope.requestIdOf frame.bytes = frame.id

theorem orderly_empty (capacity : Nat) : (empty capacity : Core κ).Orderly :=
  ⟨Registry.orderly_empty, fun _ member => nomatch member⟩

private theorem Orderly.with {core next : Core κ} (orderly : core.Orderly)
    (registry : next.registry.Orderly)
    (queues : ∀ frame ∈ next.outbox.frames, frame ∈ core.outbox.frames) : next.Orderly :=
  ⟨registry, fun frame member => orderly.addressed frame (queues frame member)⟩

variable (terms : Terms σ)

theorem Orderly.submit {core : Core κ} (orderly : core.Orderly) (now : Instant)
    (message : ClientMessage) (caller : κ) :
    (core.submit terms.signing terms.settings now message caller).2.Orderly := by
  rcases core.submit_cases terms.signing terms.settings now message caller with
    ⟨id, taken, deadline, frame, allocated, encoded, same⟩ | same |
      ⟨id, taken, allocated, same | same⟩
  · have carries := Envelope.requestIdOf_encode encoded
    rw [same]
    refine ⟨orderly.registry.join ⟨id, _, deadline, caller, true, frame, none⟩ allocated carries,
      ?_⟩
    intro queued member
    rcases List.mem_append.mp member with older | new
    · exact orderly.addressed queued older
    · rw [List.mem_singleton.mp new]
      exact carries
  · rw [same]
    exact orderly
  · rw [same]
    exact ⟨orderly.registry.allocate allocated, orderly.addressed⟩
  · rw [same]
    exact ⟨(orderly.registry.allocate allocated).free id, orderly.addressed⟩

theorem Orderly.notify {core next : Core κ} (orderly : core.Orderly) {message : ClientMessage}
    (notified : core.notify terms.signing message = .ok next) : next.Orderly := by
  obtain ⟨frame, encoded, rfl⟩ := notify_eq_ok notified
  refine ⟨orderly.registry, ?_⟩
  intro queued member
  rcases List.mem_append.mp member with older | new
  · exact orderly.addressed queued older
  · rw [List.mem_singleton.mp new]
    exact Envelope.requestIdOf_encode encoded

theorem Orderly.ship {core : Core κ} (orderly : core.Orderly) (count : Nat) (time : Timestamp) :
    (core.ship count time).Orderly := by
  refine ⟨orderly.registry.change ?_, ?_⟩
  · intro request
    split <;> exact ⟨rfl, rfl⟩
  · intro frame member
    exact orderly.addressed frame (List.mem_of_mem_drop member)

theorem Orderly.requeueUnanswered {core : Core κ} (orderly : core.Orderly) :
    core.requeueUnanswered.Orderly := by
  refine ⟨orderly.registry.change fun _ => ⟨rfl, rfl⟩, ?_⟩
  intro frame member
  rcases List.mem_append.mp member with again | older
  · obtain ⟨entry, unanswered, rfl⟩ := List.mem_map.mp again
    obtain ⟨request, sent, rfl⟩ := List.mem_map.mp unanswered
    exact orderly.registry.addressed request (List.mem_of_mem_filter sent)
  · exact orderly.addressed frame older

theorem Orderly.dispatch {core : Core κ} (orderly : core.Orderly) (frame : Bytes) :
    (core.dispatch terms.signing frame).core.Orderly := by
  rcases core.dispatch_cases terms.signing frame with ⟨same, _⟩ | ⟨_, _, _, _, freed, _⟩
  · rw [same]
    exact orderly
  · rw [freed]
    exact ⟨orderly.registry.free _, orderly.addressed⟩

theorem Orderly.sweep {core : Core κ} (orderly : core.Orderly) (now : Instant) :
    (core.sweep now).1.Orderly := by
  refine orderly.with (orderly.registry.freeAll _) ?_
  intro frame member
  rw [frames_sweep] at member
  exact List.mem_of_mem_filter member

theorem Orderly.failPending {core : Core κ} (orderly : core.Orderly) :
    core.failPending.1.Orderly := by
  refine ⟨?_, fun _ member => nomatch member⟩
  change (core.registry.rejectAll .closed).1.Orderly
  rw [Registry.rejectAll_eq]
  exact orderly.registry.freeAll _

/-- No deed puts the books out of order. -/
theorem Orderly.after [DecidableEq κ] {core : Core κ} (orderly : core.Orderly) (now : Instant)
    (time : Timestamp) (deed : Deed κ) : (core.after terms now time deed).Orderly := by
  cases deed with
  | nothing => exact orderly
  | submit message caller => exact orderly.submit terms now message caller
  | notify message =>
    cases notified : core.notify terms.signing message with
    | ok next =>
      simp only [Core.after, notified]
      exact orderly.notify terms notified
    | error cause =>
      simp only [Core.after, notified]
      exact orderly
  | abandon caller =>
    refine ⟨orderly.registry.change ?_, orderly.addressed⟩
    intro request
    split <;> exact ⟨rfl, rfl⟩
  | ship line count => exact orderly.ship count time
  | requeue => exact orderly.requeueUnanswered
  | dispatch frame => exact orderly.dispatch terms frame
  | sweep => exact orderly.sweep now
  | teardown => exact orderly.failPending

/-- After a deed the same requests wait, or fewer, in the same order; or a submission let one more
wait behind them. -/
theorem faces_after [DecidableEq κ] (core : Core κ) (now : Instant) (time : Timestamp)
    (deed : Deed κ) :
    ((core.after terms now time deed).registry.pending.map Pending.face).Sublist
        (core.registry.pending.map Pending.face) ∨
      ∃ message caller, deed = .submit message caller ∧
        core.Admits terms.signing message caller (core.after terms now time deed) := by
  have changed {registry : Registry κ} {change : Pending κ → Pending κ}
      (keeps : ∀ request, (change request).face = request.face)
      (same : registry.pending = core.registry.pending.map change) :
      (registry.pending.map Pending.face).Sublist (core.registry.pending.map Pending.face) := by
    rw [same, List.map_map, show Pending.face ∘ change = Pending.face from funext keeps]
  cases deed with
  | nothing => exact Or.inl (List.Sublist.refl _)
  | submit message caller =>
    simp only [Core.after]
    rcases core.submit_admits_or terms.signing terms.settings now message caller with
      admits | ⟨_, fewer⟩
    · exact Or.inr ⟨message, caller, rfl, admits⟩
    · exact Or.inl (fewer.map _)
  | notify message =>
    left
    rw [registry_after_notify]
  | abandon caller =>
    refine Or.inl (changed ?_ rfl)
    intro request
    split <;> rfl
  | ship line count =>
    refine Or.inl (changed ?_ rfl)
    intro request
    split <;> rfl
  | requeue =>
    refine Or.inl (changed ?_ rfl)
    intro request
    rfl
  | dispatch frame =>
    left
    simp only [Core.after]
    rcases core.dispatch_cases terms.signing frame with ⟨same, _⟩ | ⟨_, _, _, _, freed, _⟩
    · rw [same]
    · rw [freed]
      exact List.filter_sublist.map _
  | sweep =>
    left
    refine List.Sublist.map _ ?_
    change (core.sweep now).1.registry.pending.Sublist _
    rw [pending_sweep]
    exact List.filter_sublist
  | teardown =>
    left
    simp only [Core.after, failPending, Registry.pending_rejectAll]
    exact List.nil_sublist _

end Core

/-- The books are in order throughout every course. -/
theorem Course.orderly_play [DecidableEq κ] (terms : Terms σ) (now : Instant) (time : Timestamp)
    (rest : σ) (turns : List (Turn κ σ)) :
    ((start terms now time rest).play terms turns).core.Orderly := by
  refine play_keeps terms (fun course => course.core.Orderly) ?_ _ turns (Core.orderly_empty _)
  intro course next orderly
  rw [(turn_does terms course next).1]
  exact orderly.after terms course.now course.time _

end Tether.Session
