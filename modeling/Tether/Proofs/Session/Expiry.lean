import Tether.Proofs.Session.Endings
import Tether.Proofs.Session.Leaks

/-! A sweep looks for the requests whose caller has given up or whose deadline has come, ends them
one after another, and then takes out the frames under their ids. The requests lie in a table that
keeps no order, so they may be ended in any order. In every order all of them end, and nothing else.
-/

namespace Tether.Session

open Time (Instant)

variable {κ σ : Type}

theorem flatMap_deliver (outcome : Pending κ → Outcome) (requests : List (Pending κ)) :
    (requests.flatMap fun request => request.deliver (outcome request)) =
      (requests.filter Pending.awaited).map fun request => ⟨request.caller, outcome request⟩ := by
  induction requests with
  | nil => rfl
  | cons request requests ih =>
    rw [List.flatMap_cons, ih]
    cases waits : request.awaited <;> simp [Pending.deliver, waits]

namespace Registry

/-- End the requests under some ids, one after another. Callers that still wait are told of a
time-out of their own request. -/
def expireEach (registry : Registry κ) : List RequestId → Registry κ × List (Delivery κ)
  | [] => (registry, [])
  | id :: ids =>
    let (next, told) := (registry.reject? id (.timeout id)).getD (registry, [])
    let (last, more) := expireEach next ids
    (last, told ++ more)

theorem expireEach_eq {registry : Registry κ} {ids : List RequestId} (distinct : ids.Nodup)
    (waits : ∀ id ∈ ids, ∃ request, registry.find? id = some request) :
    registry.expireEach ids = (ids.foldl free registry,
      ids.flatMap fun id => (registry.find? id).toList.flatMap fun request =>
        request.deliver (.error (.timeout id))) := by
  induction ids generalizing registry with
  | nil => rfl
  | cons id ids ih =>
    obtain ⟨absent, distinct⟩ := List.nodup_cons.mp distinct
    obtain ⟨request, found⟩ := waits id List.mem_cons_self
    -- The requests under the other ids are found as before.
    have others (other : RequestId) (member : other ∈ ids) :
        (registry.free id).find? other = registry.find? other :=
      registry.find?_free_of_ne fun same => absent (same ▸ member)
    have ended : registry.reject? id (.timeout id) =
        some (registry.free id, request.deliver (.error (.timeout id))) := by
      simp [reject?, settle?, found]
    have onward := @ih (registry.free id) distinct fun other member => by
      rw [others other member]
      exact waits other (List.mem_cons_of_mem id member)
    have told : (ids.flatMap fun other => ((registry.free id).find? other).toList.flatMap
          fun request => request.deliver (.error (.timeout other))) =
        ids.flatMap fun other => (registry.find? other).toList.flatMap
          fun request => request.deliver (.error (.timeout other)) := by
      rw [List.flatMap_congr]
      intro other member
      rw [others other member]
    simp [expireEach, ended, onward, told, found]

theorem free_comm (registry : Registry κ) (one other : RequestId) :
    (registry.free one).free other = (registry.free other).free one := by
  simp only [free, IdSet.erase, mk.injEq, IdSet.mk.injEq, true_and]
  exact ⟨List.filter_comm _ _ _, List.filter_comm _ _ _⟩

variable {registry : Registry κ}

theorem Orderly.tidy (orderly : registry.Orderly) : registry.Tidy :=
  ⟨orderly.taken, orderly.distinct⟩

/-- In whatever order the stale requests end, the same is left and the same callers are told. -/
theorem Tidy.expireEach_of_perm (tidy : registry.Tidy) {now : Instant} {ids : List RequestId}
    (order : ids.Perm (registry.staleIds now)) :
    ∃ told, registry.expireEach ids = ((registry.expire now).1, told) ∧
      told.Perm (registry.expire now).2 := by
  have distinct : (registry.staleIds now).Nodup :=
    tidy.distinct.sublist (List.filter_sublist.map _)
  have waits (id : RequestId) (member : id ∈ ids) :
      ∃ request, registry.find? id = some request := by
    obtain ⟨request, stale, rfl⟩ := List.mem_map.mp (order.subset member)
    exact ⟨request, tidy.find?_eq_some (List.mem_of_mem_filter stale)⟩
  have freed : ids.foldl free registry = (registry.expire now).1 :=
    order.foldl_eq' (fun one _ other _ registry => registry.free_comm one other) registry
  refine ⟨_, (expireEach_eq (order.nodup_iff.mpr distinct) waits).trans (by rw [freed]), ?_⟩
  refine (order.flatMap_right _).trans (List.Perm.of_eq ?_)
  rw [staleIds, List.flatMap_map, expire]
  apply List.flatMap_congr
  intro request stale
  rw [tidy.find?_eq_some (List.mem_of_mem_filter stale)]
  exact List.append_nil _

end Registry

theorem Outbox.remove_comm (outbox : Outbox) (one other : RequestId) :
    (outbox.remove one).remove other = (outbox.remove other).remove one := by
  simp only [remove, mk.injEq, true_and]
  exact List.filter_comm _ _ _

namespace Core

/-- A sweep that ends the requests under some ids one after another, and then takes out the frames
under each of these ids. -/
def sweepEach (core : Core κ) (ids : List RequestId) : Core κ × List (Delivery κ) :=
  let (registry, told) := core.registry.expireEach ids
  ({ core with registry, outbox := ids.foldl Outbox.remove core.outbox }, told)

variable {core : Core κ}

theorem Orderly.sweepEach_of_perm (orderly : core.Orderly) {now : Instant} {ids : List RequestId}
    (order : ids.Perm (core.registry.staleIds now)) :
    ∃ told, core.sweepEach ids = ((core.sweep now).1, told) ∧ told.Perm (core.sweep now).2 := by
  obtain ⟨told, expired, same⟩ := orderly.registry.tidy.expireEach_of_perm order
  have removed : ids.foldl Outbox.remove core.outbox =
      (core.registry.staleIds now).foldl Outbox.remove core.outbox :=
    order.foldl_eq' (fun one _ other _ outbox => outbox.remove_comm one other) core.outbox
  refine ⟨told, ?_, same⟩
  simp only [sweepEach, expired, removed]
  rfl

/-- Exactly those requests are gone that were stale. -/
theorem Orderly.gone_sweep [DecidableEq κ] (orderly : core.Orderly) (now : Instant) :
    (core.registry.pending.filter fun request =>
        request ∉ (core.sweep now).1.registry.pending) =
      core.registry.pending.filter (Pending.isStale now) := by
  rw [core.pending_sweep now]
  apply List.filter_congr
  intro request waits
  simp [waits, orderly.registry.tidy.mem_staleIds now waits]

/-- Those requests are left that have time and a caller. -/
theorem Orderly.pending_sweep_eq (orderly : core.Orderly) (now : Instant) :
    (core.sweep now).1.registry.pending =
      core.registry.pending.filter fun request =>
        request.awaited ∧ ∀ deadline ∈ request.deadline, now.nanos < deadline.nanos := by
  rw [core.pending_sweep now]
  apply List.filter_congr
  intro request waits
  rw [← request.not_isStale now]
  simp [orderly.registry.tidy.mem_staleIds now waits]

/-- A frame under the id of no request outlives every sweep. -/
theorem Orderly.none_not_mem_staleIds (orderly : core.Orderly) (now : Instant) :
    RequestId.none ∉ core.registry.staleIds now := by
  intro stale
  obtain ⟨request, gone, unnamed⟩ := List.mem_map.mp stale
  exact orderly.registry.id_ne_none (List.mem_of_mem_filter gone) unnamed

end Core

/-- However callers submit, notify and give up, however frames are written, put back and answered,
and whatever was swept before: a sweep leaves just the requests that have time and a caller, in
their order, and takes back just the ids of the others. Just the frames under the ids of the
requests that are gone leave the outbox, and no frame that belongs to no request. Of the callers
whose requests are gone those that still waited are told of a time-out of their own request, each
once, and no one else is told anything. All this is so in whatever order the sweep comes upon the
requests; only the order in which the callers are told changes with it. -/
theorem Core.sweep_ends_only_what_is_over [DecidableEq κ] (terms : Terms σ) (capacity : Nat)
    (postings : List (Posting κ)) (now : Instant) :
    let core : Core κ := (empty capacity).posted terms postings
    let next := (core.sweep now).1
    let gone := core.registry.pending.filter fun request => request ∉ next.registry.pending
    (next.registry.pending = core.registry.pending.filter fun request =>
        request.awaited ∧ ∀ deadline ∈ request.deadline, now.nanos < deadline.nanos) ∧
      (∀ id, id ∈ next.registry.inUse ↔ id ∈ core.registry.inUse ∧ id ∉ gone.map Pending.id) ∧
      next.registry.cursor = core.registry.cursor ∧
      next.closed = core.closed ∧
      next.outbox.capacity = core.outbox.capacity ∧
      (next.outbox.frames =
        core.outbox.frames.filter fun frame => frame.id ∉ gone.map Pending.id) ∧
      ((next.outbox.frames.filter fun frame => frame.id = .none) =
        core.outbox.frames.filter fun frame => frame.id = .none) ∧
      ((core.sweep now).2 = (gone.filter Pending.awaited).map fun request =>
        ⟨request.caller, .error (.timeout request.id)⟩) ∧
      ∀ ids, ids.Perm (core.registry.staleIds now) →
        ∃ told, core.sweepEach ids = (next, told) ∧ told.Perm (core.sweep now).2 := by
  intro core next gone
  have orderly : core.Orderly := (orderly_empty capacity).posted terms postings
  have stale : gone.map Pending.id = core.registry.staleIds now := by
    rw [Registry.staleIds, ← orderly.gone_sweep now]
  rw [stale]
  refine ⟨orderly.pending_sweep_eq now, Registry.mem_inUse_freeAll core.registry _,
    Registry.cursor_freeAll core.registry _, rfl, core.capacity_sweep now,
    core.frames_sweep now, ?_, ?_, ?_⟩
  · rw [frames_sweep, List.filter_filter]
    apply List.filter_congr
    intro frame _
    by_cases unnamed : frame.id = .none
    · simp [unnamed, orderly.none_not_mem_staleIds now]
    · simp [unnamed]
  · change (core.registry.expire now).2 = _
    rw [Registry.expire, flatMap_deliver]
    exact congrArg (fun requests => (List.filter Pending.awaited requests).map _)
      (orderly.gone_sweep now).symm
  · exact fun ids order => orderly.sweepEach_of_perm order

/-- Books in which a sent request, a queued one, a message without an id, a request that was given
up and one with more time lie together. -/
def Core.mixedPostings : List (Posting Nat) :=
  [⟨⟨0⟩, ⟨0⟩, .submit .ping 7⟩, ⟨⟨0⟩, ⟨0⟩, .ship ⟨0⟩ 1⟩, ⟨⟨0⟩, ⟨0⟩, .submit .ping 8⟩,
    ⟨⟨0⟩, ⟨0⟩, .notify .ping⟩, ⟨⟨5⟩, ⟨0⟩, .submit .ping 9⟩, ⟨⟨5⟩, ⟨0⟩, .abandon 9⟩,
    ⟨⟨5⟩, ⟨0⟩, .submit .ping 10⟩]

/-- After thirty seconds the first three requests end, here the last of them first. -/
theorem Core.sweep_ends_only_what_is_over_mixed :
    let core : Core Nat := (empty 8).posted Terms.plain mixedPostings
    let half : Instant := ⟨30 * Time.nanosPerSecond⟩
    [⟨3⟩, ⟨2⟩, ⟨1⟩].Perm (core.registry.staleIds half) ∧
      (core.sweep half).1.outbox.frames.map QueuedFrame.id = [.none, ⟨4⟩] ∧
      ∃ told, core.sweepEach [⟨3⟩, ⟨2⟩, ⟨1⟩] = ((core.sweep half).1, told) ∧
        told.Perm [⟨7, .error (.timeout ⟨1⟩)⟩, ⟨8, .error (.timeout ⟨2⟩)⟩] := by
  intro core half
  have order : [⟨3⟩, ⟨2⟩, ⟨1⟩].Perm (core.registry.staleIds half) := by decide
  obtain ⟨_, _, _, _, _, _, _, _, anyhow⟩ :=
    sweep_ends_only_what_is_over Terms.plain 8 mixedPostings half
  obtain ⟨told, ended, same⟩ := anyhow _ order
  have all : (core.sweep half).2 =
      [⟨7, .error (.timeout ⟨1⟩)⟩, ⟨8, .error (.timeout ⟨2⟩)⟩] := by decide
  exact ⟨order, by decide, told, ended, same.trans (List.Perm.of_eq all)⟩

end Tether.Session
