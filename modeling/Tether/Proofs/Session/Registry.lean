import Tether.Session.Registry

namespace Tether.Session.Registry

open Time (Instant Timestamp)

variable {κ : Type}

private theorem add_ofNat_succ (cursor : UInt8) (count : Nat) :
    cursor + 1 + 1 + UInt8.ofNat count = cursor + 1 + UInt8.ofNat (count + 1) := by
  rw [UInt8.ofNat_add, UInt8.add_assoc (cursor + 1), UInt8.add_comm 1]
  rfl

/-- The search for a free id passes over ids that are taken, and over zero. -/
theorem nextFree_eq_some {inUse : IdSet} {cursor : UInt8} {steps : Nat} {id : RequestId}
    (found : nextFree inUse cursor steps = some id) :
    id ≠ .none ∧ id ∉ inUse ∧ ∃ passed < steps,
      id.byte = cursor + 1 + UInt8.ofNat passed ∧
        ∀ earlier < passed, (⟨cursor + 1 + UInt8.ofNat earlier⟩ : RequestId) = .none ∨
          (⟨cursor + 1 + UInt8.ofNat earlier⟩ : RequestId) ∈ inUse := by
  induction steps generalizing cursor with
  | zero => simp [nextFree] at found
  | succ steps ih =>
    simp only [nextFree] at found
    split at found
    · rename_i free
      cases found
      refine ⟨free.1, free.2, 0, by omega, by simp, ?_⟩
      intro earlier before
      omega
    · rename_i taken
      obtain ⟨proper, fresh, passed, bound, place, skipped⟩ := ih found
      refine ⟨proper, fresh, passed + 1, by omega, by rw [← add_ofNat_succ]; exact place, ?_⟩
      intro earlier before
      cases earlier with
      | zero =>
        by_cases zero : (⟨cursor + 1⟩ : RequestId) = .none
        · exact Or.inl (by simpa using zero)
        · right
          simpa using Decidable.not_not.mp fun absent => taken ⟨zero, absent⟩
      | succ earlier =>
        rw [← add_ofNat_succ]
        exact skipped earlier (by omega)

theorem nextFree_eq_none {inUse : IdSet} {cursor : UInt8} {steps : Nat} :
    nextFree inUse cursor steps = none ↔ ∀ passed < steps,
      (⟨cursor + 1 + UInt8.ofNat passed⟩ : RequestId) = .none ∨
        (⟨cursor + 1 + UInt8.ofNat passed⟩ : RequestId) ∈ inUse := by
  induction steps generalizing cursor with
  | zero => simp [nextFree]
  | succ steps ih =>
    simp only [nextFree]
    split
    · rename_i free
      refine iff_of_false (by simp) ?_
      intro passes
      have here := passes 0 (Nat.succ_pos steps)
      rw [show UInt8.ofNat 0 = 0 from rfl, UInt8.add_zero] at here
      exact here.elim free.1 free.2
    · rename_i taken
      rw [ih]
      constructor
      · intro passes passed bound
        cases passed with
        | zero => simpa [Decidable.or_iff_not_imp_left] using taken
        | succ passed =>
          rw [← add_ofNat_succ]
          exact passes passed (Nat.lt_of_succ_lt_succ bound)
      · intro passes passed bound
        rw [add_ofNat_succ]
        exact passes (passed + 1) (Nat.succ_lt_succ bound)

/-- A new id is proper, was free, and is the only one taken. -/
theorem allocate_eq_ok {registry taken : Registry κ} {id : RequestId}
    (allocated : registry.allocate = .ok (id, taken)) :
    nextFree registry.inUse registry.cursor 256 = some id ∧
      taken = { registry with inUse := registry.inUse.insert id, cursor := id.byte } := by
  unfold allocate at allocated
  split at allocated
  · rename_i found
    cases allocated
    exact ⟨found, rfl⟩
  · cases allocated

theorem allocate_fresh {registry taken : Registry κ} {id : RequestId}
    (allocated : registry.allocate = .ok (id, taken)) : id ≠ .none ∧ id ∉ registry.inUse := by
  obtain ⟨proper, fresh, _⟩ := nextFree_eq_some (allocate_eq_ok allocated).1
  exact ⟨proper, fresh⟩

/-- There is no new id if all are taken, since the search meets every id in one turn of the
circle. -/
theorem allocate_eq_error {registry : Registry κ} {cause : SessionError} :
    registry.allocate = .error cause ↔
      cause = .idsExhausted ∧ ∀ id, id ≠ .none → id ∈ registry.inUse := by
  have failed : registry.allocate = .error cause ↔
      cause = .idsExhausted ∧ nextFree registry.inUse registry.cursor 256 = none := by
    unfold allocate
    split
    · rename_i found
      simp [found]
    · rename_i full
      simp [full, eq_comm]
  rw [failed, nextFree_eq_none]
  refine and_congr_right fun _ => ?_
  constructor
  · intro passes id proper
    have met := passes (id.byte - (registry.cursor + 1)).toNat (UInt8.toNat_lt _)
    rw [UInt8.ofNat_toNat, UInt8.add_comm, UInt8.sub_add_cancel] at met
    exact met.resolve_left proper
  · intro whole passed _
    exact Decidable.or_iff_not_imp_left.mpr (whole _)

/-- A caller that waits is the last in line and has not been sent. -/
theorem register_eq_ok {registry next : Registry κ} {id : RequestId} {tag : UInt16}
    {deadline : Option Instant} {caller : κ} {frame : Bytes}
    (registered : registry.register id tag deadline caller frame = .ok next) :
    next = { registry with
      pending := registry.pending ++ [⟨id, tag, deadline, caller, true, frame, none⟩] } := by
  unfold register at registered
  split at registered
  · cases registered
  · split at registered
    · cases registered
    · cases registered
      rfl

theorem register_eq_error {registry : Registry κ} {id : RequestId} {tag : UInt16}
    {deadline : Option Instant} {caller : κ} {frame : Bytes} {cause : SessionError}
    (failed : registry.register id tag deadline caller frame = .error cause) :
    cause = .notAllocated id ∨ cause = .alreadyPending id := by
  unfold register at failed
  split at failed
  · cases failed
    exact Or.inl rfl
  · split at failed
    · cases failed
      exact Or.inr rfl
    · cases failed

/-- A caller can only wait under an id that was taken and under which nobody waits. -/
theorem register_admits {registry next : Registry κ} {id : RequestId} {tag : UInt16}
    {deadline : Option Instant} {caller : κ} {frame : Bytes}
    (registered : registry.register id tag deadline caller frame = .ok next) :
    id ≠ .none ∧ id ∈ registry.inUse ∧ registry.find? id = none := by
  unfold register at registered
  split at registered
  · cases registered
  · rename_i allocated
    split at registered
    · cases registered
    · rename_i alone
      refine ⟨fun zero => allocated (Or.inl zero), ?_, by simpa [isPending] using alone⟩
      exact Decidable.not_not.mp fun absent => allocated (Or.inr absent)

theorem register_of_find?_eq_some {registry : Registry κ} {request : Pending κ} {id : RequestId}
    (proper : id ≠ .none) (taken : id ∈ registry.inUse)
    (waits : registry.find? id = some request) (tag : UInt16) (deadline : Option Instant)
    (caller : κ) (frame : Bytes) :
    registry.register id tag deadline caller frame = .error (.alreadyPending id) := by
  unfold register
  rw [if_neg (not_or.mpr ⟨proper, not_not_intro taken⟩), if_pos (by simp [isPending, waits])]

@[simp] theorem pending_free (registry : Registry κ) (id : RequestId) :
    (registry.free id).pending = registry.pending.filter fun request => request.id ≠ id := rfl

@[simp] theorem inUse_free (registry : Registry κ) (id : RequestId) :
    (registry.free id).inUse = registry.inUse.erase id := rfl

@[simp] theorem cursor_free (registry : Registry κ) (id : RequestId) :
    (registry.free id).cursor = registry.cursor := rfl

theorem pending_freeAll (registry : Registry κ) (ids : List RequestId) :
    (ids.foldl free registry).pending =
      registry.pending.filter fun request => request.id ∉ ids := by
  induction ids generalizing registry with
  | nil => exact (List.filter_eq_self.mpr (by simp)).symm
  | cons id ids ih =>
    rw [List.foldl_cons, ih, pending_free, List.filter_filter]
    apply List.filter_congr
    intro request _
    by_cases same : request.id = id <;> simp [same]

theorem mem_inUse_freeAll (registry : Registry κ) (ids : List RequestId) (id : RequestId) :
    id ∈ (ids.foldl free registry).inUse ↔ id ∈ registry.inUse ∧ id ∉ ids := by
  induction ids generalizing registry with
  | nil => simp
  | cons first ids ih =>
    rw [List.foldl_cons, ih, inUse_free, IdSet.mem_erase, List.mem_cons, not_or, and_assoc]

theorem cursor_freeAll (registry : Registry κ) (ids : List RequestId) :
    (ids.foldl free registry).cursor = registry.cursor := by
  induction ids generalizing registry with
  | nil => rfl
  | cons id ids ih => rw [List.foldl_cons, ih, cursor_free]

theorem rejectAll_eq (registry : Registry κ) (cause : RequestError) :
    (registry.rejectAll cause).1 = (registry.pending.map Pending.id).foldl free registry := by
  simp only [rejectAll, List.foldl_map]

theorem pending_rejectAll (registry : Registry κ) (cause : RequestError) :
    (registry.rejectAll cause).1.pending = [] := by
  rw [rejectAll_eq, pending_freeAll, List.filter_eq_nil_iff]
  intro request member
  simpa using ⟨request, member, rfl⟩

theorem pending_expire (registry : Registry κ) (now : Instant) :
    (registry.expire now).1.pending =
      registry.pending.filter fun request => request.id ∉ registry.staleIds now :=
  pending_freeAll registry _

theorem find?_eq_none {registry : Registry κ} {id : RequestId} :
    registry.find? id = none ↔ ∀ request ∈ registry.pending, request.id ≠ id := by
  simp [find?]

theorem filter_id_ne_of_find?_eq_none {registry : Registry κ} {id : RequestId}
    (absent : registry.find? id = none) :
    (registry.pending.filter fun request => request.id ≠ id) = registry.pending := by
  apply List.filter_eq_self.mpr
  intro request waits
  exact decide_eq_true (find?_eq_none.mp absent request waits)

theorem find?_eq_some {registry : Registry κ} {id : RequestId} {request : Pending κ}
    (found : registry.find? id = some request) :
    request ∈ registry.pending ∧ request.id = id :=
  ⟨List.mem_of_find?_eq_some found, by simpa using List.find?_some found⟩

theorem release_fst (registry : Registry κ) (id : RequestId) :
    (registry.release id).1 = registry.free id := by
  unfold release settle?
  cases registry.find? id <;> rfl

@[simp] theorem find?_free_self (registry : Registry κ) (id : RequestId) :
    (registry.free id).find? id = none := by
  apply find?_eq_none.mpr
  intro request waits
  simpa using (List.mem_filter.mp waits).2

theorem find?_free_of_ne (registry : Registry κ) {id other : RequestId} (apart : other ≠ id) :
    (registry.free id).find? other = registry.find? other := by
  unfold find?
  rw [pending_free, List.find?_filter]
  congr 1
  funext request
  by_cases same : request.id = other
  · simp [same, apart]
  · simp [same]

theorem ids_map {change : Pending κ → Pending κ}
    (keeps : ∀ request, (change request).id = request.id) (requests : List (Pending κ)) :
    (requests.map change).map Pending.id = requests.map Pending.id := by
  rw [List.map_map, show Pending.id ∘ change = Pending.id from funext keeps]

/-- Everything under some ids was written to a connection. -/
def markSentAll (registry : Registry κ) (ids : List RequestId) (time : Timestamp) : Registry κ :=
  { registry with
    pending := registry.pending.map fun request =>
      if request.id ∈ ids then { request with sentAt := some time } else request }

theorem markSentAll_cons (registry : Registry κ) (id : RequestId) (ids : List RequestId)
    (time : Timestamp) :
    registry.markSentAll (id :: ids) time = (registry.markSent id time).markSentAll ids time := by
  simp only [markSentAll, markSent, List.map_map]
  congr 1
  apply List.map_congr_left
  intro request _
  by_cases same : request.id = id <;> by_cases later : request.id ∈ ids <;> simp [same, later]

end Tether.Session.Registry
