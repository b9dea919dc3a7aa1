import Tether.Proofs.Session.Pool

/-! What is put back after a loss is not held against the capacity of the outbox, and every loss
puts something back. The outbox does not grow from loss to loss all the same: only requests that
wait under an id are put back, and a frame that is put back leaves its request unsent. So frames are
counted together with the requests that were sent: a flush turns the ones into the others, and what
is put back turns them into frames again. -/

namespace Tether.Session

open Message (ClientMessage)
open Time (Instant Timestamp)

variable {κ σ : Type}

namespace Registry

theorem length_unanswered (registry : Registry κ) :
    registry.unanswered.length = registry.pending.countP fun request => request.sentAt.isSome := by
  rw [unanswered, List.length_map, List.countP_eq_length_filter]

theorem Orderly.length_pending_le {registry : Registry κ} (orderly : registry.Orderly) :
    registry.pending.length ≤ 255 := by
  have within : (registry.pending.map Pending.id).Subperm properIds := by
    refine List.subperm_of_subset orderly.distinct fun id member => mem_properIds.mpr ?_
    obtain ⟨request, waits, rfl⟩ := List.mem_map.mp member
    exact orderly.id_ne_none waits
  simpa [properIds] using within.length_le

theorem Orderly.countP_id_le {registry : Registry κ} (orderly : registry.Orderly)
    (ids : List RequestId) :
    (registry.pending.countP fun request => request.id ∈ ids) ≤ ids.length := by
  have named : (registry.pending.filter fun request => request.id ∈ ids).map Pending.id ⊆ ids := by
    intro id member
    obtain ⟨request, kept, rfl⟩ := List.mem_map.mp member
    exact of_decide_eq_true (List.mem_filter.mp kept).2
  have distinct := orderly.distinct.sublist
    ((List.filter_sublist (p := fun request => decide (request.id ∈ ids))).map Pending.id)
  have fewer := (List.subperm_of_subset distinct named).length_le
  rwa [List.length_map, ← List.countP_eq_length_filter] at fewer

end Registry

namespace Core

/-- How many frames wait once everything that was sent is put back. -/
def backlog (core : Core κ) : Nat := core.outbox.size + core.registry.unanswered.length

theorem size_requeueUnanswered (core : Core κ) :
    core.requeueUnanswered.outbox.size = core.backlog := by
  simp [requeueUnanswered, Outbox.requeue, Outbox.size, backlog, Nat.add_comm]

private theorem backlog_le_of_sublist {core next : Core κ}
    (frames : next.outbox.frames.Sublist core.outbox.frames)
    (pending : next.registry.pending.Sublist core.registry.pending) :
    next.backlog ≤ core.backlog := by
  simp only [backlog, Registry.length_unanswered]
  exact Nat.add_le_add frames.length_le pending.countP_le

/-- Each frame that is written makes at most one request sent. -/
private theorem countP_markSentAll (ids : List RequestId) (time : Timestamp)
    (pending : List (Pending κ)) :
    ((pending.map fun request =>
      if request.id ∈ ids then { request with sentAt := some time } else request).countP
        fun request => request.sentAt.isSome) ≤
      (pending.countP fun request => request.sentAt.isSome) +
        pending.countP fun request => request.id ∈ ids := by
  induction pending with
  | nil => exact Nat.le_refl 0
  | cons request pending ih =>
    rw [List.map_cons, List.countP_cons, List.countP_cons, List.countP_cons]
    by_cases goes : request.id ∈ ids
    · simp only [goes, decide_true, if_true, Option.isSome_some]
      omega
    · simp only [goes, decide_false, if_false]
      omega

theorem Orderly.backlog_ship {core : Core κ} (orderly : core.Orderly) (count : Nat)
    (time : Timestamp) : (core.ship count time).backlog ≤ core.backlog := by
  have sent := countP_markSentAll ((core.outbox.frames.take count).map QueuedFrame.id) time
    core.registry.pending
  have named := orderly.registry.countP_id_le ((core.outbox.frames.take count).map QueuedFrame.id)
  have whole := congrArg List.length (List.take_append_drop count core.outbox.frames)
  rw [List.length_map] at named
  rw [List.length_append] at whole
  simp only [backlog, Registry.length_unanswered]
  change (core.outbox.frames.drop count).length + _ ≤ core.outbox.frames.length + _
  exact le_trans (Nat.add_le_add_left sent _) (by omega)

theorem backlog_requeueUnanswered (core : Core κ) :
    core.requeueUnanswered.backlog = core.backlog := by
  have none : core.requeueUnanswered.registry.unanswered = [] := by
    simp [requeueUnanswered, Registry.unanswered, Registry.markUnsent, List.filter_map]
  rw [backlog, none, size_requeueUnanswered]
  rfl

variable (terms : Terms σ) [DecidableEq κ]

theorem capacity_after (core : Core κ) (now : Instant) (time : Timestamp) (deed : Deed κ) :
    (core.after terms now time deed).outbox.capacity = core.outbox.capacity := by
  cases deed with
  | submit message caller =>
    simp only [Core.after]
    rcases core.submit_admits_or terms.signing terms.settings now message caller with
      ⟨id, taken, deadline, frame, _, _, same⟩ | ⟨same, _⟩ <;> rw [same]
  | notify message =>
    rcases core.after_notify_cases terms now time message with same | ⟨_, frame, same⟩ <;> rw [same]
  | dispatch frame =>
    simp only [Core.after]
    rcases core.dispatch_cases terms.signing frame with ⟨same, _⟩ | ⟨_, _, _, _, freed, _⟩
    · rw [same]
    · rw [freed]
  | sweep => exact core.capacity_sweep now
  | nothing => rfl
  | abandon caller => rfl
  | ship line count => rfl
  | requeue => rfl
  | teardown => rfl

omit [DecidableEq κ] in
private theorem backlog_submit (core : Core κ) (now : Instant) (message : Message.ClientMessage)
    (caller : κ) :
    let next := (core.submit terms.signing terms.settings now message caller).2
    next.backlog ≤ core.backlog ∨ next.outbox.size ≤ core.outbox.capacity := by
  intro next
  rcases core.submit_outcome terms.signing terms.settings now message caller with
    ⟨_, same⟩ | ⟨_, _, _, same⟩ | ⟨id, taken, _, allocated, outcome⟩
  · simp only [next, same]
    exact Or.inl (Nat.le_refl _)
  · simp only [next, same]
    exact Or.inl (Nat.le_refl _)
  · obtain ⟨_, rfl⟩ := Registry.allocate_eq_ok allocated
    rcases outcome with ⟨_, same⟩ | ⟨_, _, same⟩ | ⟨deadline, frame, _, same⟩
    · simp only [next, same]
      exact Or.inl (Nat.le_refl _)
    · simp only [next, same]
      exact Or.inl (backlog_le_of_sublist (List.Sublist.refl _) List.filter_sublist)
    · have room := room_of_submit (congrArg Prod.fst same)
      simp only [next, same]
      refine Or.inr ?_
      rw [Outbox.size, List.length_append]
      exact room

private theorem backlog_abandon (core : Core κ) (caller : κ) :
    { core with registry := core.registry.abandon caller }.backlog = core.backlog := by
  simp only [backlog, Registry.length_unanswered, Registry.abandon, List.countP_map]
  refine congrArg _ (List.countP_congr fun request _ => ?_)
  simp only [Function.comp_apply]
  split <;> rfl

/-- A deed adds to the backlog only by queueing a frame, for which there must be room. -/
theorem Orderly.backlog_after {core : Core κ} (orderly : core.Orderly) (now : Instant)
    (time : Timestamp) (deed : Deed κ) :
    (core.after terms now time deed).backlog ≤ core.backlog ∨
      (core.after terms now time deed).outbox.size ≤ core.outbox.capacity := by
  cases deed with
  | nothing => exact Or.inl (Nat.le_refl _)
  | submit message caller => exact core.backlog_submit terms now message caller
  | notify message =>
    rcases core.after_notify_cases terms now time message with same | ⟨room, frame, same⟩
    · rw [same]
      exact Or.inl (Nat.le_refl _)
    · rw [same, Outbox.size, List.length_append]
      exact Or.inr room
  | abandon caller => exact Or.inl (Nat.le_of_eq (core.backlog_abandon caller))
  | ship line count => exact Or.inl (orderly.backlog_ship count time)
  | requeue => exact Or.inl (Nat.le_of_eq core.backlog_requeueUnanswered)
  | dispatch frame =>
    left
    simp only [Core.after]
    rcases core.dispatch_cases terms.signing frame with ⟨same, _⟩ | ⟨_, _, _, _, freed, _⟩
    · rw [same]
    · rw [freed]
      exact backlog_le_of_sublist (List.Sublist.refl _) List.filter_sublist
  | sweep =>
    left
    refine backlog_le_of_sublist ?_ ?_
    · change (core.sweep now).1.outbox.frames.Sublist _
      rw [frames_sweep]
      exact List.filter_sublist
    · change (core.sweep now).1.registry.pending.Sublist _
      rw [pending_sweep]
      exact List.filter_sublist
  | teardown =>
    left
    refine backlog_le_of_sublist (List.nil_sublist _) ?_
    change (core.registry.rejectAll .closed).1.pending.Sublist _
    rw [Registry.pending_rejectAll]
    exact List.nil_sublist _

/-- Frames and sent requests together are never more than the outbox may hold and there are ids. -/
theorem Orderly.backlog_posted {core : Core κ} (orderly : core.Orderly)
    (bounded : core.backlog ≤ core.outbox.capacity + 255) (postings : List (Posting κ)) :
    (core.posted terms postings).backlog ≤ core.outbox.capacity + 255 := by
  induction postings generalizing core with
  | nil => exact bounded
  | cons posting postings ih =>
    have kept := orderly.after terms posting.now posting.time posting.deed
    have same := core.capacity_after terms posting.now posting.time posting.deed
    rw [← same]
    refine ih kept ?_
    rw [same]
    rcases orderly.backlog_after terms posting.now posting.time posting.deed with less | room
    · exact le_trans less bounded
    · have waiting := kept.registry.length_pending_le
      have sent := (core.after terms posting.now posting.time posting.deed).registry.pending
        |>.countP_le_length (p := fun request => request.sentAt.isSome)
      rw [← Registry.length_unanswered] at sent
      exact Nat.add_le_add room (le_trans sent waiting)

end Core

/-- However callers submit, notify and give up, however frames are written, put back and answered,
and whenever requests are swept or everything is torn down: new books with room for so many frames
never hold more than 255 beyond that, even if everything that was sent is put back. So it is with the
books of every session at every moment of its course. -/
theorem Core.outbox_stays_bounded [DecidableEq κ] (terms : Terms σ) (capacity : Nat)
    (postings : List (Posting κ)) :
    ((empty capacity : Core κ).posted terms postings).outbox.size ≤ capacity + 255 ∧
      ((empty capacity : Core κ).posted terms postings).requeueUnanswered.outbox.size ≤
        capacity + 255 ∧
      ∀ now time rest (turns : List (Turn κ σ)),
        ((Course.start terms now time rest).play terms turns).core.outbox.size ≤
          terms.settings.maxQueuedMessages.toNat + 255 := by
  have bounded (capacity : Nat) (postings : List (Posting κ)) :
      ((empty capacity : Core κ).posted terms postings).backlog ≤ capacity + 255 :=
    (orderly_empty capacity).backlog_posted terms (Nat.zero_le _) postings
  have holds (core : Core κ) : core.outbox.size ≤ core.backlog := Nat.le_add_right _ _
  refine ⟨le_trans (holds _) (bounded capacity postings), ?_, ?_⟩
  · rw [size_requeueUnanswered]
    exact bounded capacity postings
  · intro now time rest turns
    rw [Course.core_play]
    exact le_trans (holds _) (bounded _ _)

end Tether.Session
