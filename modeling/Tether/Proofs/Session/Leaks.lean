import Tether.Proofs.Session.Circle

namespace Tether.Session

open Message (ClientMessage)
open Time (Instant Timestamp)

variable {κ σ : Type}

namespace Core

/-- The id is taken, and no request waits under it. -/
def Lost (core : Core κ) (id : RequestId) : Prop :=
  id ∈ core.registry.inUse ∧ id ∉ core.registry.pending.map Pending.id

variable {core next : Core κ} {id : RequestId}

private theorem lost_congr (inUse : next.registry.inUse = core.registry.inUse)
    (ids : next.registry.pending.map Pending.id = core.registry.pending.map Pending.id) :
    next.Lost id ↔ core.Lost id := by
  unfold Lost
  rw [inUse, ids]

private theorem lost_change (change : Pending κ → Pending κ)
    (keeps : ∀ request, (change request).id = request.id)
    (inUse : next.registry.inUse = core.registry.inUse)
    (pending : next.registry.pending = core.registry.pending.map change) :
    next.Lost id ↔ core.Lost id := by
  refine lost_congr inUse ?_
  rw [pending, Registry.ids_map keeps]

/-- Ids of requests that end are given back with their requests. -/
private theorem lost_freeAll (ids : List RequestId)
    (among : ∀ id ∈ ids, id ∈ core.registry.pending.map Pending.id)
    (freed : next.registry = ids.foldl Registry.free core.registry) :
    next.Lost id ↔ core.Lost id := by
  unfold Lost
  rw [freed, Registry.mem_inUse_freeAll, Registry.pending_freeAll]
  constructor
  · rintro ⟨⟨taken, spared⟩, absent⟩
    refine ⟨taken, ?_⟩
    intro waits
    obtain ⟨request, member, rfl⟩ := List.mem_map.mp waits
    exact absent (List.mem_map_of_mem (List.mem_filter.mpr ⟨member, decide_eq_true spared⟩))
  · rintro ⟨taken, absent⟩
    refine ⟨⟨taken, fun gone => absent (among id gone)⟩, ?_⟩
    intro waits
    obtain ⟨request, member, same⟩ := List.mem_map.mp waits
    exact absent (same ▸ List.mem_map_of_mem (List.mem_of_mem_filter member))

variable (terms : Terms σ)

/-- The deed is a submission that breaks off: the clock cannot show its deadline. -/
def BreaksOff (core : Core κ) (now : Instant) : Deed κ → Prop
  | .submit message caller =>
    (core.submit terms.signing terms.settings now message caller).1 = .error .deadline
  | _ => False

instance (core : Core κ) (now : Instant) :
    (deed : Deed κ) → Decidable (core.BreaksOff terms now deed)
  | .submit message caller => inferInstanceAs (Decidable
      ((core.submit terms.signing terms.settings now message caller).1 = .error .deadline))
  | .nothing | .notify _ | .abandon _ | .ship _ _ | .requeue | .dispatch _ | .sweep | .teardown =>
    inferInstanceAs (Decidable False)

private theorem takes_submit_iff {message : ClientMessage} {caller : κ} {new : RequestId}
    {taken : Registry κ} (runs : core.closed = false)
    (allocated : core.registry.allocate = .ok (new, taken)) :
    core.Takes (.submit message caller) id ↔ id = new := by
  constructor
  · rintro ⟨_, _, _, _, _, found⟩
    rw [allocated] at found
    cases found
    rfl
  · rintro rfl
    exact ⟨message, caller, taken, rfl, runs, allocated⟩

private theorem Orderly.lost_submit (orderly : core.Orderly) (now : Instant)
    (message : ClientMessage) (caller : κ) :
    (core.submit terms.signing terms.settings now message caller).2.Lost id ↔
      core.Lost id ∨ core.BreaksOff terms now (.submit message caller) ∧
        core.Takes (.submit message caller) id := by
  change _ ↔ core.Lost id ∨
    (core.submit terms.signing terms.settings now message caller).1 = .error .deadline ∧ _
  rcases core.submit_outcome terms.signing terms.settings now message caller with
    ⟨_, same⟩ | ⟨_, cause, _, same⟩ | ⟨new, taken, runs, allocated, outcome⟩
  · rw [same]
    simp
  · rw [same]
    simp
  · have fresh := (Registry.allocate_fresh allocated).2
    rcases outcome with ⟨_, same⟩ | ⟨cause, other, same⟩ | ⟨deadline, frame, _, same⟩
    · have alone : new ∉ core.registry.pending.map Pending.id := by
        intro waits
        obtain ⟨request, member, named⟩ := List.mem_map.mp waits
        exact orderly.registry.vacant fresh request member named
      rw [same, takes_submit_iff runs allocated]
      obtain ⟨_, rfl⟩ := Registry.allocate_eq_ok allocated
      simp only [Lost, IdSet.mem_insert, true_and]
      constructor
      · rintro ⟨rfl | older, absent⟩
        · exact Or.inr rfl
        · exact Or.inl ⟨older, absent⟩
      · rintro (⟨older, absent⟩ | rfl)
        · exact ⟨Or.inr older, absent⟩
        · exact ⟨Or.inl rfl, alone⟩
    · rw [same, orderly.registry.free_taken allocated]
      simp only [Lost, Except.error.injEq, other, false_and, or_false]
    · obtain ⟨_, rfl⟩ := Registry.allocate_eq_ok allocated
      rw [same]
      simp only [Lost, IdSet.mem_insert, List.map_append, List.map_singleton, List.mem_append,
        List.mem_singleton, not_or, reduceCtorEq, false_and, or_false]
      constructor
      · rintro ⟨taken, absent, apart⟩
        exact ⟨taken.resolve_left apart, absent⟩
      · rintro ⟨taken, absent⟩
        exact ⟨Or.inr taken, absent, fun clash => fresh (clash ▸ taken)⟩

/-- An id is lost by a submission that breaks off with it, by nothing else, and for good. -/
theorem Orderly.lost_after [DecidableEq κ] (orderly : core.Orderly) (now : Instant)
    (time : Timestamp) (deed : Deed κ) :
    (core.after terms now time deed).Lost id ↔
      core.Lost id ∨ core.BreaksOff terms now deed ∧ core.Takes deed id := by
  have keeps (same : (core.after terms now time deed).Lost id ↔ core.Lost id)
      (other : ¬(core.BreaksOff terms now deed ∧ core.Takes deed id)) :
      (core.after terms now time deed).Lost id ↔
        core.Lost id ∨ core.BreaksOff terms now deed ∧ core.Takes deed id :=
    same.trans (or_iff_left other).symm
  cases deed with
  | submit message caller => exact orderly.lost_submit terms now message caller
  | nothing => exact keeps Iff.rfl And.left
  | notify message =>
    refine keeps ?_ And.left
    apply lost_congr
    · rw [registry_after_notify]
    · rw [registry_after_notify]
  | abandon caller =>
    refine keeps (lost_change _ ?_ rfl rfl) And.left
    intro request
    split <;> rfl
  | ship line count =>
    refine keeps (lost_change _ ?_ rfl rfl) And.left
    intro request
    split <;> rfl
  | requeue =>
    exact keeps (lost_change (fun request => { request with sentAt := none }) (fun _ => rfl)
      rfl rfl) And.left
  | dispatch frame =>
    refine keeps ?_ And.left
    simp only [Core.after]
    rcases core.dispatch_cases terms.signing frame with
      ⟨same, _⟩ | ⟨request, _, _, found, freed, _⟩
    · rw [same]
    · obtain ⟨waits, named⟩ := Registry.find?_eq_some found
      rw [freed]
      refine lost_freeAll [Envelope.requestIdOf frame] ?_ rfl
      intro id member
      rw [List.mem_singleton.mp member, ← named]
      exact List.mem_map_of_mem waits
  | sweep =>
    refine keeps (lost_freeAll (core.registry.staleIds now) ?_ rfl) And.left
    intro id stale
    exact (List.filter_sublist.map _).subset stale
  | teardown =>
    refine keeps (lost_freeAll _ (fun _ member => member) ?_) And.left
    exact core.registry.rejectAll_eq .closed

theorem deadline_of_breaksOff {now : Instant} {deed : Deed κ}
    (breaks : core.BreaksOff terms now deed) :
    terms.settings.deadline? now = none ∧ ∃ id, core.Takes deed id := by
  cases deed with
  | submit message caller =>
    change (core.submit terms.signing terms.settings now message caller).1 = .error .deadline
      at breaks
    rcases core.submit_outcome terms.signing terms.settings now message caller with
      ⟨_, same⟩ | ⟨_, _, _, same⟩ | ⟨id, taken, runs, allocated, outcome⟩
    · rw [same] at breaks
      cases breaks
    · rw [same] at breaks
      cases breaks
    · rcases outcome with ⟨none, _⟩ | ⟨cause, other, same⟩ | ⟨_, _, _, same⟩
      · exact ⟨none, id, message, caller, taken, rfl, runs, allocated⟩
      · rw [same] at breaks
        exact absurd (Except.error.inj breaks) other
      · rw [same] at breaks
        cases breaks
  | _ => exact breaks.elim

/-- No id is lost after a deed if none was before it and it does not break off. -/
theorem Orderly.none_lost_after [DecidableEq κ] (orderly : core.Orderly) (now : Instant)
    (time : Timestamp) (deed : Deed κ) :
    (∀ id, ¬(core.after terms now time deed).Lost id) ↔
      (∀ id, ¬core.Lost id) ∧ ¬core.BreaksOff terms now deed := by
  simp only [orderly.lost_after, not_or]
  constructor
  · intro none
    refine ⟨fun id => (none id).1, ?_⟩
    intro breaks
    obtain ⟨_, id, takes⟩ := deadline_of_breaksOff terms breaks
    exact (none id).2 ⟨breaks, takes⟩
  · rintro ⟨none, whole⟩ id
    exact ⟨none id, fun both => whole both.1⟩

end Core

/-- A deed, and when it is done. -/
structure Posting (κ : Type) where
  now : Instant
  time : Timestamp
  deed : Deed κ

namespace Core

variable (terms : Terms σ) [DecidableEq κ]

def posted (core : Core κ) (postings : List (Posting κ)) : Core κ :=
  postings.foldl (fun core posting => core.after terms posting.now posting.time posting.deed) core

/-- No posting is a submission that breaks off. -/
def Unbroken (core : Core κ) : List (Posting κ) → Prop
  | [] => True
  | posting :: postings =>
    ¬core.BreaksOff terms posting.now posting.deed ∧
      Unbroken (core.after terms posting.now posting.time posting.deed) postings

theorem unbroken_of_deadlines {postings : List (Posting κ)}
    (shown : ∀ posting ∈ postings, terms.settings.deadline? posting.now ≠ none) (core : Core κ) :
    core.Unbroken terms postings := by
  induction postings generalizing core with
  | nil => trivial
  | cons posting postings ih =>
    refine ⟨fun breaks => ?_, ?_⟩
    · exact shown posting List.mem_cons_self (deadline_of_breaksOff terms breaks).1
    · exact ih (fun later member => shown later (List.mem_cons_of_mem posting member)) _

theorem Orderly.posted {core : Core κ} (orderly : core.Orderly) (postings : List (Posting κ)) :
    (core.posted terms postings).Orderly := by
  induction postings generalizing core with
  | nil => exact orderly
  | cons posting postings ih => exact ih (orderly.after terms posting.now posting.time posting.deed)

theorem Orderly.none_lost_posted {core : Core κ} (orderly : core.Orderly)
    (postings : List (Posting κ)) :
    (∀ id, ¬(core.posted terms postings).Lost id) ↔
      (∀ id, ¬core.Lost id) ∧ core.Unbroken terms postings := by
  induction postings generalizing core with
  | nil => exact (and_iff_left trivial).symm
  | cons posting postings ih =>
    change (∀ id, ¬(Core.posted terms (core.after terms _ _ _) postings).Lost id) ↔ _ ∧ _ ∧ _
    rw [ih (orderly.after terms posting.now posting.time posting.deed), orderly.none_lost_after,
      and_assoc]

end Core

namespace Course

variable [DecidableEq κ] (terms : Terms σ)

/-- No submission breaks off. -/
def Unbroken (course : Course κ σ) (turns : List (Turn κ σ)) : Prop :=
  ∀ count next, turns[count]? = some next →
    ¬(course.play terms (turns.take count)).core.BreaksOff terms
      (course.play terms (turns.take count)).now
      ((course.play terms (turns.take count)).deed terms next)

theorem unbroken_cons (course : Course κ σ) (next : Turn κ σ) (turns : List (Turn κ σ)) :
    course.Unbroken terms (next :: turns) ↔
      ¬course.core.BreaksOff terms course.now (course.deed terms next) ∧
        (course.turn terms next).Unbroken terms turns := by
  constructor
  · intro unbroken
    exact ⟨unbroken 0 next rfl, fun count later there => unbroken (count + 1) later there⟩
  · rintro ⟨first, rest⟩ count later there
    cases count with
    | zero =>
      cases there
      exact first
    | succ count => exact rest count later there

instance decidableUnbroken (course : Course κ σ) :
    (turns : List (Turn κ σ)) → Decidable (course.Unbroken terms turns)
  | [] => isTrue fun _ _ there => nomatch there
  | next :: turns =>
    have := decidableUnbroken (course.turn terms next) turns
    decidable_of_iff _ (course.unbroken_cons terms next turns).symm

/-- What a session posts to its books in the course of some turns. -/
def postings (course : Course κ σ) : List (Turn κ σ) → List (Posting κ)
  | [] => []
  | next :: turns =>
    ⟨course.now, course.time, course.deed terms next⟩ :: (course.turn terms next).postings turns

theorem core_play (course : Course κ σ) (turns : List (Turn κ σ)) :
    (course.play terms turns).core = course.core.posted terms (course.postings terms turns) := by
  induction turns generalizing course with
  | nil => rfl
  | cons next turns ih =>
    change ((course.turn terms next).play terms turns).core = _
    rw [ih, (course.turn_does terms next).1]
    rfl

theorem unbroken_postings (course : Course κ σ) (turns : List (Turn κ σ)) :
    course.core.Unbroken terms (course.postings terms turns) ↔ course.Unbroken terms turns := by
  induction turns generalizing course with
  | nil => exact iff_of_true trivial fun _ _ there => nomatch there
  | cons next turns ih =>
    rw [unbroken_cons, ← ih, (course.turn_does terms next).1]
    rfl

/-- Throughout a course, no id is lost if none was before it and no submission breaks off. -/
theorem none_lost_play {course : Course κ σ} (orderly : course.core.Orderly)
    (turns : List (Turn κ σ)) :
    (∀ id, ¬(course.play terms turns).core.Lost id) ↔
      (∀ id, ¬course.core.Lost id) ∧ course.Unbroken terms turns := by
  rw [core_play, orderly.none_lost_posted, unbroken_postings]

end Course

end Tether.Session
