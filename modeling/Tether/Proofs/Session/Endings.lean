import Mathlib.Data.List.Nodup
import Tether.Proofs.Session.Registry

namespace Tether.Session

open Message (ServerMessage)
open Time (Instant Timestamp)

variable {κ : Type}

/-- Something that is done to a registry, or a caller that drops its end. -/
inductive Operation (κ : Type) where
  | allocate
  | register (id : RequestId) (tag : UInt16) (deadline : Option Instant) (caller : κ)
    (frame : Bytes)
  | release (id : RequestId)
  | resolve (id : RequestId) (message : ServerMessage)
  | reject (id : RequestId) (cause : RequestError)
  | markSent (id : RequestId) (time : Timestamp)
  | takeUnanswered
  | expire (now : Instant)
  | rejectAll (cause : RequestError)
  | abandon (caller : κ)
  deriving DecidableEq

/-- A registry among its callers. -/
structure Desk (κ : Type) where
  registry : Registry κ
  /-- The callers that have dropped their ends, also those that have not registered yet. -/
  gone : List κ

namespace Operation

def caller? : Operation κ → Option κ
  | .register _ _ _ caller _ => some caller
  | _ => none

/-- The id whose request an operation is to end, whatever that is. -/
def target? : Operation κ → Option RequestId
  | .release id => some id
  | .resolve id _ => some id
  | .reject id _ => some id
  | _ => none

/-- Whether an operation ends a request. -/
def ends (request : Pending κ) : Operation κ → Bool
  | .release id => request.id = id
  | .resolve id _ => request.id = id
  | .reject id _ => request.id = id
  | .expire now => request.isStale now
  | .rejectAll _ => true
  | _ => false

/-- What the caller of a request is told by an operation that ends it. -/
def result? (request : Pending κ) : Operation κ → Option Outcome
  | .resolve _ message => some (.reply ⟨message, request.sentAt⟩)
  | .reject _ cause => some (.error cause)
  | .expire _ => some (.error (.timeout request.id))
  | .rejectAll cause => some (.error cause)
  | _ => none

/-- How a request ends by an operation that ends it. -/
def outcome (request : Pending κ) (operation : Operation κ) : Outcome :=
  (operation.result? request).getD .dropped

/-- A request after an operation that does not end it. -/
def touch [DecidableEq κ] (request : Pending κ) : Operation κ → Pending κ
  | .markSent id time => if request.id = id then { request with sentAt := some time } else request
  | .takeUnanswered => { request with sentAt := none }
  | .abandon caller =>
    if request.caller = caller then { request with awaited := false } else request
  | _ => request

end Operation

namespace Desk

def empty : Desk κ := ⟨.empty, []⟩

variable [DecidableEq κ]

/-- The desk after an operation, and what callers are told. -/
def apply (desk : Desk κ) : Operation κ → Desk κ × List (Delivery κ)
  | .allocate =>
    match desk.registry.allocate with
    | .ok (_, taken) => ({ desk with registry := taken }, [])
    | .error _ => (desk, [])
  | .register id tag deadline caller frame =>
    match desk.registry.register id tag deadline caller frame with
    | .ok next =>
      ({ desk with registry := if caller ∈ desk.gone then next.abandon caller else next }, [])
    | .error _ => (desk, [])
  | .release id =>
    let (registry, told) := desk.registry.release id
    ({ desk with registry }, told)
  | .resolve id message =>
    match desk.registry.resolve? id message with
    | some (registry, told) => ({ desk with registry }, told)
    | none => (desk, [])
  | .reject id cause =>
    match desk.registry.reject? id cause with
    | some (registry, told) => ({ desk with registry }, told)
    | none => (desk, [])
  | .markSent id time => ({ desk with registry := desk.registry.markSent id time }, [])
  | .takeUnanswered => ({ desk with registry := desk.registry.markUnsent }, [])
  | .expire now =>
    let (registry, told) := desk.registry.expire now
    ({ desk with registry }, told)
  | .rejectAll cause =>
    let (registry, told) := desk.registry.rejectAll cause
    ({ desk with registry }, told)
  | .abandon caller => ({ registry := desk.registry.abandon caller, gone := caller :: desk.gone }, [])

def run (desk : Desk κ) : List (Operation κ) → Desk κ × List (Delivery κ)
  | [] => (desk, [])
  | operation :: later =>
    let (next, told) := desk.apply operation
    let (last, more) := run next later
    (last, told ++ more)

def after (operations : List (Operation κ)) : Desk κ := (empty.run operations).1

end Desk

/-- The results that a caller was given. To be dropped is no result. -/
def results [DecidableEq κ] (caller : κ) (told : List (Delivery κ)) : List Outcome :=
  (told.filter fun delivery => delivery.caller = caller ∧ delivery.outcome ≠ .dropped).map
    Delivery.outcome

namespace Registry

/-- Requests wait under distinct ids that are taken. -/
structure Tidy (registry : Registry κ) : Prop where
  taken : ∀ request ∈ registry.pending, request.id ∈ registry.inUse
  distinct : (registry.pending.map Pending.id).Nodup

variable {registry : Registry κ}

theorem Tidy.filter_id (tidy : registry.Tidy) (id : RequestId) :
    (registry.pending.filter fun request => request.id = id) = (registry.find? id).toList := by
  unfold find?
  have distinct := tidy.distinct
  generalize registry.pending = pending at distinct
  induction pending with
  | nil => rfl
  | cons request pending ih =>
    rw [List.map_cons, List.nodup_cons] at distinct
    by_cases same : request.id = id
    · have none : (pending.filter fun other => other.id = id) = [] := by
        apply List.filter_eq_nil_iff.mpr
        intro other member clash
        apply distinct.1
        rw [same, ← of_decide_eq_true clash]
        exact List.mem_map_of_mem member
      simp [same, none]
    · simp [same, ih distinct.2]

theorem Tidy.find?_eq_some (tidy : registry.Tidy) {request : Pending κ}
    (waits : request ∈ registry.pending) : registry.find? request.id = some request := by
  have alone := tidy.filter_id request.id
  have member : request ∈ registry.pending.filter fun other => other.id = request.id := by
    apply List.mem_filter.mpr
    exact ⟨waits, decide_eq_true rfl⟩
  rw [alone] at member
  exact Option.mem_toList.mp member

theorem Tidy.mem_staleIds (tidy : registry.Tidy) (now : Instant) {request : Pending κ}
    (waits : request ∈ registry.pending) :
    request.id ∈ registry.staleIds now ↔ request.isStale now = true := by
  unfold staleIds
  constructor
  · intro member
    obtain ⟨other, stale, same⟩ := List.mem_map.mp member
    obtain ⟨also, old⟩ := List.mem_filter.mp stale
    rw [← List.inj_on_of_nodup_map tidy.distinct also waits same]
    exact old
  · intro stale
    exact List.mem_map_of_mem (List.mem_filter.mpr ⟨waits, stale⟩)

end Registry

namespace Desk

variable [DecidableEq κ] {desk : Desk κ}

/-- The request that an operation lets in. -/
def entrant? (desk : Desk κ) : Operation κ → Option (Pending κ)
  | .register id tag deadline caller frame =>
    match desk.registry.register id tag deadline caller frame with
    | .ok _ => some ⟨id, tag, deadline, caller, caller ∉ desk.gone, frame, none⟩
    | .error _ => none
  | _ => none

/-- An operation that is aimed at an id ends what waits under it. -/
theorem apply_of_target? {operation : Operation κ} {id : RequestId}
    (aimed : operation.target? = some id) :
    ((desk.apply operation).1.registry = desk.registry.free id ∨
        desk.registry.find? id = none ∧ (desk.apply operation).1.registry = desk.registry) ∧
      (desk.apply operation).2 = (desk.registry.find? id).toList.flatMap fun request =>
        request.deliver (operation.outcome request) := by
  cases waits : desk.registry.find? id <;> cases operation <;> cases aimed <;>
    simp [apply, Registry.resolve?, Registry.reject?, Registry.release, Registry.settle?, waits,
      Operation.outcome, Operation.result?]

theorem pending_of_target? {operation : Operation κ} {id : RequestId}
    (aimed : operation.target? = some id) :
    (desk.apply operation).1.registry.pending =
      desk.registry.pending.filter fun request => request.id ≠ id := by
  rcases (apply_of_target? aimed).1 with freed | ⟨absent, same⟩
  · rw [freed, Registry.pending_free]
  · rw [same]
    exact (Registry.filter_id_ne_of_find?_eq_none absent).symm

private theorem pending_register (id : RequestId) (tag : UInt16) (deadline : Option Instant)
    {caller : κ} (fresh : caller ∉ desk.registry.pending.map Pending.caller) (frame : Bytes) :
    (desk.apply (.register id tag deadline caller frame)).1.registry.pending =
      desk.registry.pending ++ (desk.entrant? (.register id tag deadline caller frame)).toList := by
  simp only [apply, entrant?]
  cases registered : desk.registry.register id tag deadline caller frame with
  | error cause => simp
  | ok next =>
    rw [Registry.register_eq_ok registered]
    by_cases left : caller ∈ desk.gone
    · -- No request that waited is the caller's, so only the new one loses its caller.
      have untouched : desk.registry.pending.map (fun request =>
          if request.caller = caller then { request with awaited := false } else request) =
            desk.registry.pending := by
        conv_rhs => rw [← List.map_id desk.registry.pending]
        apply List.map_congr_left
        intro request waits
        apply if_neg
        intro same
        exact fresh (same ▸ List.mem_map_of_mem waits)
      simp [left, Registry.abandon, untouched]
    · simp [left]

omit [DecidableEq κ] in
private theorem pending_expire (tidy : desk.registry.Tidy) (now : Instant) :
    (desk.registry.expire now).1.pending =
      desk.registry.pending.filter fun request => !request.isStale now := by
  rw [Registry.pending_expire]
  apply List.filter_congr
  intro request waits
  simp [tidy.mem_staleIds now waits]

/-- An operation takes out the requests that it ends, touches the others and lets at most one in. -/
theorem pending_apply (tidy : desk.registry.Tidy) (operation : Operation κ)
    (fresh : ∀ caller, operation.caller? = some caller →
      caller ∉ desk.registry.pending.map Pending.caller) :
    (desk.apply operation).1.registry.pending =
      (desk.registry.pending.filter fun request => !operation.ends request).map
        (fun request => operation.touch request) ++ (desk.entrant? operation).toList := by
  cases operation with
  | allocate =>
    simp only [apply]
    cases allocated : desk.registry.allocate with
    | error cause => simp [entrant?, Operation.ends, Operation.touch]
    | ok pair =>
      obtain ⟨id, taken⟩ := pair
      obtain ⟨_, rfl⟩ := Registry.allocate_eq_ok allocated
      simp [entrant?, Operation.ends, Operation.touch]
  | register id tag deadline caller frame =>
    rw [pending_register id tag deadline (fresh caller rfl) frame]
    simp [Operation.ends, Operation.touch]
  | release id =>
    rw [pending_of_target? rfl]
    simp [entrant?, Operation.ends, Operation.touch]
  | resolve id message =>
    rw [pending_of_target? rfl]
    simp [entrant?, Operation.ends, Operation.touch]
  | reject id cause =>
    rw [pending_of_target? rfl]
    simp [entrant?, Operation.ends, Operation.touch]
  | markSent id time => simp [apply, entrant?, Operation.ends, Operation.touch, Registry.markSent]
  | takeUnanswered => simp [apply, entrant?, Operation.ends, Operation.touch, Registry.markUnsent]
  | expire now =>
    rw [show (desk.apply (.expire now)).1.registry.pending = _ from pending_expire tidy now]
    simp [entrant?, Operation.ends, Operation.touch]
  | rejectAll cause =>
    simp [apply, entrant?, Operation.ends, Operation.touch, Registry.pending_rejectAll]
  | abandon caller => simp [apply, entrant?, Operation.ends, Operation.touch, Registry.abandon]

/-- The id of a request stays taken until the request ends. -/
theorem inUse_apply (tidy : desk.registry.Tidy) (operation : Operation κ) {request : Pending κ}
    (waits : request ∈ desk.registry.pending) :
    request.id ∈ (desk.apply operation).1.registry.inUse ↔ ¬operation.ends request := by
  have taken := tidy.taken request waits
  have aimed {id : RequestId} (target : operation.target? = some id) :
      request.id ∈ (desk.apply operation).1.registry.inUse ↔ ¬request.id = id := by
    rcases (apply_of_target? target).1 with freed | ⟨absent, same⟩
    · rw [freed, Registry.inUse_free, IdSet.mem_erase]
      exact and_iff_right taken
    · rw [same]
      exact iff_of_true taken (Registry.find?_eq_none.mp absent request waits)
  cases operation with
  | allocate =>
    simp only [apply]
    cases allocated : desk.registry.allocate with
    | error cause => simpa [Operation.ends] using taken
    | ok pair =>
      obtain ⟨id, next⟩ := pair
      obtain ⟨_, rfl⟩ := Registry.allocate_eq_ok allocated
      simp [Operation.ends, taken]
  | register id tag deadline caller frame =>
    simp only [apply]
    cases registered : desk.registry.register id tag deadline caller frame with
    | error cause => simpa [Operation.ends] using taken
    | ok next =>
      rw [Registry.register_eq_ok registered]
      by_cases left : caller ∈ desk.gone <;>
        simpa [Operation.ends, left, Registry.abandon] using taken
  | release id => simpa [Operation.ends] using aimed rfl
  | resolve id message => simpa [Operation.ends] using aimed rfl
  | reject id cause => simpa [Operation.ends] using aimed rfl
  | expire now =>
    simp only [apply, Registry.expire, Registry.mem_inUse_freeAll, tidy.mem_staleIds now waits,
      Operation.ends]
    exact and_iff_right taken
  | rejectAll cause =>
    simp only [apply, Registry.rejectAll_eq, Registry.mem_inUse_freeAll, Operation.ends]
    have among : request.id ∈ desk.registry.pending.map Pending.id := List.mem_map_of_mem waits
    simp [among]
  | markSent id time => simpa [apply, Operation.ends, Registry.markSent] using taken
  | takeUnanswered => simpa [apply, Operation.ends, Registry.markUnsent] using taken
  | abandon caller => simpa [apply, Operation.ends, Registry.abandon] using taken

/-- Those are told whose requests end. -/
theorem told_apply (tidy : desk.registry.Tidy) (operation : Operation κ) :
    (desk.apply operation).2 =
      (desk.registry.pending.filter fun request => operation.ends request).flatMap
        fun request => request.deliver (operation.outcome request) := by
  have aimed {id : RequestId} (target : operation.target? = some id) :
      (desk.apply operation).2 =
        (desk.registry.pending.filter fun request => request.id = id).flatMap
          fun request => request.deliver (operation.outcome request) := by
    rw [(apply_of_target? target).2, tidy.filter_id]
  cases operation with
  | allocate =>
    simp only [apply]
    cases desk.registry.allocate <;> simp [Operation.ends]
  | register id tag deadline caller frame =>
    simp only [apply]
    cases desk.registry.register id tag deadline caller frame <;> simp [Operation.ends]
  | release id => exact aimed rfl
  | resolve id message => exact aimed rfl
  | reject id cause => exact aimed rfl
  | expire now => rfl
  | rejectAll cause =>
    simp [apply, Registry.rejectAll, Operation.ends, Operation.outcome, Operation.result?]
  | markSent id time => simp [apply, Operation.ends]
  | takeUnanswered => simp [apply, Operation.ends]
  | abandon caller => simp [apply, Operation.ends]

theorem entrant?_eq_some {operation : Operation κ} {request : Pending κ}
    (enters : desk.entrant? operation = some request) :
    operation.caller? = some request.caller ∧ request.id ≠ .none ∧
      request.id ∈ (desk.apply operation).1.registry.inUse ∧
      (∀ other ∈ desk.registry.pending, other.id ≠ request.id) ∧
      request.awaited = decide (request.caller ∉ desk.gone) ∧ (desk.apply operation).2 = [] := by
  cases operation with
  | register id tag deadline caller frame =>
    simp only [entrant?] at enters
    cases registered : desk.registry.register id tag deadline caller frame with
    | error cause => simp [registered] at enters
    | ok next =>
      simp only [registered, Option.some.injEq] at enters
      subst enters
      obtain ⟨proper, taken, alone⟩ := Registry.register_admits registered
      simp only [apply, registered]
      refine ⟨rfl, proper, ?_, Registry.find?_eq_none.mp alone, by simp⟩
      rw [Registry.register_eq_ok registered]
      by_cases left : caller ∈ desk.gone <;> simpa [left, Registry.abandon] using taken
  | _ => simp [entrant?] at enters

end Desk

section

variable {α : Type} {begins ends : List α → α → Prop}

/-- Something began in a history, and nothing has ended it since. -/
def Lasting (begins ends : List α → α → Prop) (history : List α) : Prop :=
  ∃ before entry later, history = before ++ entry :: later ∧ begins before entry ∧
    ∀ between next rest, later = between ++ next :: rest → ¬ends (before ++ entry :: between) next

theorem not_lasting_nil : ¬Lasting begins ends [] := by
  rintro ⟨before, entry, later, whole, _⟩
  simp at whole

theorem lasting_concat {history : List α} {last : α} :
    Lasting begins ends (history ++ [last]) ↔
      begins history last ∨ Lasting begins ends history ∧ ¬ends history last := by
  constructor
  · rintro ⟨before, entry, later, whole, began, kept⟩
    rcases List.eq_nil_or_concat later with rfl | ⟨between, next, rfl⟩
    · obtain ⟨rfl, rfl⟩ := List.append_singleton_inj.mp whole
      exact Or.inl began
    · rw [List.concat_eq_append, ← List.cons_append, ← List.append_assoc] at whole
      obtain ⟨rfl, rfl⟩ := List.append_singleton_inj.mp whole
      right
      refine ⟨⟨before, entry, between, rfl, began, ?_⟩, kept between last [] (by simp)⟩
      rintro sooner next rest rfl
      exact kept sooner next (rest ++ [last]) (by simp)
  · rintro (began | ⟨⟨before, entry, later, rfl, began, kept⟩, stays⟩)
    · refine ⟨history, last, [], rfl, began, ?_⟩
      intro between next rest whole
      simp at whole
    · refine ⟨before, entry, later ++ [last], by simp, began, ?_⟩
      intro between next rest whole
      rcases List.eq_nil_or_concat rest with rfl | ⟨more, final, rfl⟩
      · obtain ⟨rfl, rfl⟩ := List.append_singleton_inj.mp whole
        exact stays
      · rw [List.concat_eq_append, ← List.cons_append, ← List.append_assoc] at whole
        obtain ⟨rfl, rfl⟩ := List.append_singleton_inj.mp whole
        exact kept between next more rfl

end

section

variable [DecidableEq κ] {caller : κ}

theorem results_append (first second : List (Delivery κ)) :
    results caller (first ++ second) = results caller first ++ results caller second := by
  simp [results]

theorem results_deliver (request : Pending κ) (operation : Operation κ) :
    results request.caller (request.deliver (operation.outcome request)) =
      if request.awaited then (operation.result? request).toList else [] := by
  unfold Pending.deliver Operation.outcome
  cases told : operation.result? request with
  | none => cases request.awaited <;> simp [results]
  | some result =>
    have word : result ≠ .dropped := by
      rintro rfl
      cases operation <;> simp [Operation.result?] at told
    cases request.awaited <;> simp [results, word]

theorem results_deliveries_of_not_mem (outcome : Pending κ → Outcome) {requests : List (Pending κ)}
    (absent : ∀ request ∈ requests, request.caller ≠ caller) :
    results caller (requests.flatMap fun request => request.deliver (outcome request)) = [] := by
  rw [results, List.filter_eq_nil_iff.mpr, List.map_nil]
  intro delivery told named
  obtain ⟨request, waits, told⟩ := List.mem_flatMap.mp told
  unfold Pending.deliver at told
  split at told
  · rw [List.mem_singleton.mp told] at named
    exact absent request waits (of_decide_eq_true named).1
  · cases told

/-- Among callers that are told something each at most once, one is told of its own request. -/
theorem results_deliveries_of_mem (outcome : Pending κ → Outcome) {requests : List (Pending κ)}
    {request : Pending κ} (distinct : (requests.map Pending.caller).Nodup)
    (among : request ∈ requests) :
    results request.caller (requests.flatMap fun request => request.deliver (outcome request)) =
      results request.caller (request.deliver (outcome request)) := by
  obtain ⟨before, after, rfl⟩ := List.append_of_mem among
  rw [List.map_append, List.map_cons, List.nodup_middle, List.nodup_cons, ← List.map_append]
    at distinct
  have others : ∀ other ∈ before ++ after, other.caller ≠ request.caller := by
    intro other member same
    exact distinct.1 (same ▸ List.mem_map_of_mem member)
  rw [List.flatMap_append, List.flatMap_cons, results_append, results_append,
    results_deliveries_of_not_mem outcome fun other member =>
      others other (List.mem_append_left _ member),
    results_deliveries_of_not_mem outcome fun other member =>
      others other (List.mem_append_right _ member),
    List.nil_append, List.append_nil]

end

namespace Pending

variable [DecidableEq κ]

/-- Whether operations leave a request waiting. -/
def outlives (request : Pending κ) : List (Operation κ) → Bool
  | [] => true
  | operation :: later =>
    !operation.ends request && outlives (operation.touch request) later

/-- A request after operations that leave it waiting. -/
def afterAll (request : Pending κ) (operations : List (Operation κ)) : Pending κ :=
  operations.foldl Operation.touch request

omit [DecidableEq κ] in
theorem not_isStale (request : Pending κ) (now : Instant) :
    (!request.isStale now) =
      decide (request.awaited ∧ ∀ deadline ∈ request.deadline, now.nanos < deadline.nanos) := by
  apply Bool.eq_iff_iff.mpr
  cases limit : request.deadline with
  | none => simp [isStale, limit]
  | some deadline => simp [isStale, limit]

theorem touch_eq (request : Pending κ) (operation : Operation κ) :
    operation.touch request =
      { request with
        awaited := request.awaited && operation ≠ .abandon request.caller
        sentAt := (operation.touch request).sentAt } := by
  cases operation with
  | markSent id time =>
    simp only [Operation.touch]
    split <;> simp
  | abandon caller =>
    by_cases same : request.caller = caller
    · simp [Operation.touch, same]
    · simp [Operation.touch, same, Ne.symm same]
  | _ => simp [Operation.touch]

@[simp] theorem id_touch (request : Pending κ) (operation : Operation κ) :
    (operation.touch request).id = request.id := by
  rw [touch_eq]

@[simp] theorem caller_touch (request : Pending κ) (operation : Operation κ) :
    (operation.touch request).caller = request.caller := by
  rw [touch_eq]

theorem afterAll_eq (request : Pending κ) (operations : List (Operation κ)) :
    request.afterAll operations =
      { request with
        awaited := request.awaited && .abandon request.caller ∉ operations
        sentAt := (request.afterAll operations).sentAt } := by
  induction operations generalizing request with
  | nil => simp [afterAll]
  | cons operation later ih =>
    have step : request.afterAll (operation :: later) = (operation.touch request).afterAll later :=
      rfl
    rw [step, ih, touch_eq]
    simp [Bool.and_assoc, eq_comm]

@[simp] theorem id_afterAll (request : Pending κ) (operations : List (Operation κ)) :
    (request.afterAll operations).id = request.id := by
  rw [afterAll_eq]

@[simp] theorem caller_afterAll (request : Pending κ) (operations : List (Operation κ)) :
    (request.afterAll operations).caller = request.caller := by
  rw [afterAll_eq]

end Pending

namespace Desk

variable [DecidableEq κ] {desk : Desk κ}

/-- Requests wait in order, and everyone who waits or is still to come is someone else. -/
structure Ready (desk : Desk κ) (later : List (Operation κ)) : Prop where
  tidy : desk.registry.Tidy
  own : (desk.registry.pending.map Pending.caller ++ later.filterMap Operation.caller?).Nodup

omit [DecidableEq κ] in
theorem Ready.fresh {operation : Operation κ} {later : List (Operation κ)}
    (ready : desk.Ready (operation :: later)) (caller : κ)
    (handed : operation.caller? = some caller) :
    caller ∉ desk.registry.pending.map Pending.caller := by
  intro waits
  have apart := List.disjoint_of_nodup_append ready.own
  apply apart waits
  simp [handed]

theorem Ready.callers_apply {operation : Operation κ} {later : List (Operation κ)}
    (ready : desk.Ready (operation :: later)) :
    ((desk.apply operation).1.registry.pending.map Pending.caller ++
        later.filterMap Operation.caller?).Sublist
      (desk.registry.pending.map Pending.caller ++
        (operation :: later).filterMap Operation.caller?) := by
  rw [pending_apply ready.tidy operation ready.fresh, List.map_append, List.append_assoc]
  apply List.Sublist.append
  · rw [List.map_map]
    have same : Pending.caller ∘ (fun request => operation.touch request) = Pending.caller :=
      funext fun request => Pending.caller_touch request operation
    rw [same]
    exact List.filter_sublist.map _
  · cases enters : desk.entrant? operation with
    | none => exact (List.sublist_cons_self operation later).filterMap _
    | some request =>
      rw [List.filterMap_cons, (entrant?_eq_some enters).1]
      exact List.Sublist.refl _

theorem Ready.next {operation : Operation κ} {later : List (Operation κ)}
    (ready : desk.Ready (operation :: later)) : (desk.apply operation).1.Ready later := by
  have entries := pending_apply ready.tidy operation ready.fresh
  refine ⟨⟨?_, ?_⟩, ready.own.sublist ready.callers_apply⟩
  · intro request waits
    rw [entries] at waits
    rcases List.mem_append.mp waits with stays | enters
    · obtain ⟨old, kept, rfl⟩ := List.mem_map.mp stays
      obtain ⟨waited, spared⟩ := List.mem_filter.mp kept
      rw [Pending.id_touch]
      exact (inUse_apply ready.tidy operation waited).mpr (by simpa using spared)
    · exact (entrant?_eq_some (Option.mem_toList.mp enters)).2.2.1
  · rw [entries, List.map_append, Registry.ids_map fun request => Pending.id_touch request operation,
      List.nodup_append]
    refine ⟨ready.tidy.distinct.sublist (List.filter_sublist.map _), ?_, ?_⟩
    · cases desk.entrant? operation <;> simp
    · rintro _ waited _ new rfl
      obtain ⟨old, kept, clash⟩ := List.mem_map.mp waited
      obtain ⟨request, enters, named⟩ := List.mem_map.mp new
      have apart := (entrant?_eq_some (Option.mem_toList.mp enters)).2.2.2.1
      exact apart old (List.mem_of_mem_filter kept) (clash.trans named.symm)

theorem run_cons (desk : Desk κ) (operation : Operation κ) (later : List (Operation κ)) :
    desk.run (operation :: later) = (((desk.apply operation).1.run later).1,
      (desk.apply operation).2 ++ ((desk.apply operation).1.run later).2) := rfl

theorem run_append (desk : Desk κ) (first second : List (Operation κ)) :
    desk.run (first ++ second) =
      (((desk.run first).1.run second).1, (desk.run first).2 ++ ((desk.run first).1.run second).2) := by
  induction first generalizing desk with
  | nil => rfl
  | cons operation first ih => simp [run_cons, ih, List.append_assoc]

theorem after_concat (operations : List (Operation κ)) (operation : Operation κ) :
    after (operations ++ [operation]) = ((after operations).apply operation).1 := by
  simp [after, run_append, run]

theorem Ready.later {first second : List (Operation κ)} (ready : desk.Ready (first ++ second)) :
    (desk.run first).1.Ready second := by
  induction first generalizing desk with
  | nil => exact ready
  | cons operation first ih => exact ih ready.next

/-- A caller is told of the end of its request, and of nothing else. -/
theorem Ready.results_apply {operation : Operation κ} {later : List (Operation κ)}
    (ready : desk.Ready (operation :: later)) {request : Pending κ}
    (waits : request ∈ desk.registry.pending) :
    results request.caller (desk.apply operation).2 =
      if operation.ends request ∧ request.awaited then (operation.result? request).toList
      else [] := by
  have distinct := (List.nodup_append.mp ready.own).1
  rw [told_apply ready.tidy operation]
  by_cases ended : operation.ends request
  · have among : request ∈ desk.registry.pending.filter fun other => operation.ends other :=
      List.mem_filter.mpr ⟨waits, ended⟩
    rw [results_deliveries_of_mem _ (distinct.sublist (List.filter_sublist.map _)) among,
      results_deliver]
    simp [ended]
  · rw [results_deliveries_of_not_mem]
    · simp [ended]
    · intro other among same
      obtain ⟨waited, ends⟩ := List.mem_filter.mp among
      rw [List.inj_on_of_nodup_map distinct waited waits same] at ends
      exact ended ends

theorem Ready.silent {later : List (Operation κ)} (ready : desk.Ready later) {caller : κ}
    (absent : caller ∉
      desk.registry.pending.map Pending.caller ++ later.filterMap Operation.caller?) :
    results caller (desk.run later).2 = [] := by
  induction later generalizing desk with
  | nil => rfl
  | cons operation later ih =>
    rw [run_cons, results_append, ih ready.next fun member => absent (ready.callers_apply.subset member),
      told_apply ready.tidy operation, results_deliveries_of_not_mem]
    · rfl
    · intro other among same
      apply absent
      apply List.mem_append_left
      rw [← same]
      exact List.mem_map_of_mem (List.mem_of_mem_filter among)

theorem Ready.silent_before {earlier later : List (Operation κ)}
    (ready : desk.Ready (earlier ++ later)) {caller : κ}
    (coming : caller ∈ later.filterMap Operation.caller?) :
    results caller (desk.run earlier).2 = [] := by
  have own := ready.own
  rw [List.filterMap_append, ← List.append_assoc] at own
  have first : desk.Ready earlier := ⟨ready.tidy, (List.nodup_append.mp own).1⟩
  apply first.silent
  intro member
  exact List.disjoint_of_nodup_append own member coming

/-- A request stays until something ends it, and meanwhile its caller is told nothing. -/
theorem Ready.stays {before later : List (Operation κ)} (ready : desk.Ready (before ++ later))
    {request : Pending κ} (waits : request ∈ desk.registry.pending)
    (outlives : request.outlives before) :
    request.afterAll before ∈ (desk.run before).1.registry.pending ∧
      results request.caller (desk.run before).2 = [] := by
  induction before generalizing desk request with
  | nil => exact ⟨waits, rfl⟩
  | cons operation before ih =>
    simp only [Pending.outlives, Bool.and_eq_true, Bool.not_eq_true'] at outlives
    obtain ⟨spared, onward⟩ := outlives
    have still : operation.touch request ∈ (desk.apply operation).1.registry.pending := by
      rw [pending_apply ready.tidy operation ready.fresh]
      apply List.mem_append_left
      apply List.mem_map_of_mem
      exact List.mem_filter.mpr ⟨waits, by simp [spared]⟩
    obtain ⟨last, quiet⟩ := ih ready.next still onward
    rw [Pending.caller_touch] at quiet
    refine ⟨last, ?_⟩
    rw [run_cons, results_append, quiet, ready.results_apply waits]
    simp [spared]

/-- A request that an operation ends is gone, its id is free and its caller never comes back. -/
theorem Ready.ends {operation : Operation κ} {later : List (Operation κ)}
    (ready : desk.Ready (operation :: later)) {request : Pending κ}
    (waits : request ∈ desk.registry.pending) (ended : operation.ends request) :
    (desk.apply operation).1.registry.find? request.id = none ∧
      request.id ∉ (desk.apply operation).1.registry.inUse ∧
      request.caller ∉ (desk.apply operation).1.registry.pending.map Pending.caller ++
        later.filterMap Operation.caller? := by
  have free : request.id ∉ (desk.apply operation).1.registry.inUse := by
    rw [inUse_apply ready.tidy operation waits]
    exact not_not_intro ended
  refine ⟨?_, free, ?_⟩
  · apply Registry.find?_eq_none.mpr
    intro other member same
    exact free (same ▸ ready.next.tidy.taken other member)
  · intro member
    rcases List.mem_append.mp member with waiting | coming
    · obtain ⟨other, waits', same⟩ := List.mem_map.mp waiting
      rw [pending_apply ready.tidy operation ready.fresh] at waits'
      rcases List.mem_append.mp waits' with stays | enters
      · obtain ⟨old, kept, rfl⟩ := List.mem_map.mp stays
        obtain ⟨waited, spared⟩ := List.mem_filter.mp kept
        rw [Pending.caller_touch] at same
        have distinct := (List.nodup_append.mp ready.own).1
        rw [List.inj_on_of_nodup_map distinct waited waits same, ended] at spared
        cases spared
      · have handed := (entrant?_eq_some (Option.mem_toList.mp enters)).1
        apply ready.fresh _ handed
        rw [same]
        exact List.mem_map_of_mem waits
    · have apart := List.disjoint_of_nodup_append ready.own
      apply apart (List.mem_map_of_mem waits)
      exact ((List.sublist_cons_self operation later).filterMap _).subset coming

theorem Ready.holds {entry : Operation κ} {before later : List (Operation κ)}
    (ready : desk.Ready (entry :: before ++ later)) {request : Pending κ}
    (enters : desk.entrant? entry = some request) (outlives : request.outlives before) :
    request.afterAll before ∈ (desk.run (entry :: before)).1.registry.pending ∧
      (desk.run (entry :: before)).1.Ready later ∧
      results request.caller (desk.run (entry :: before)).2 = [] := by
  have waits : request ∈ (desk.apply entry).1.registry.pending := by
    rw [pending_apply ready.tidy entry ready.fresh]
    exact List.mem_append_right _ (Option.mem_toList.mpr enters)
  obtain ⟨stays, quiet⟩ := ready.next.stays waits outlives
  refine ⟨stays, ready.later, ?_⟩
  rw [run_cons, results_append, quiet, (entrant?_eq_some enters).2.2.2.2.2]
  rfl

theorem mem_gone_run (operations : List (Operation κ)) (caller : κ) :
    caller ∈ (desk.run operations).1.gone ↔ caller ∈ desk.gone ∨ .abandon caller ∈ operations := by
  induction operations generalizing desk with
  | nil => simp [run]
  | cons operation later ih =>
    have once : caller ∈ (desk.apply operation).1.gone ↔
        caller ∈ desk.gone ∨ .abandon caller = operation := by
      cases operation <;> simp only [apply] <;> (try split) <;> simp [or_comm]
    rw [run_cons, ih, once, List.mem_cons, or_assoc]

omit [DecidableEq κ] in
theorem ready_empty {operations : List (Operation κ)}
    (own : (operations.filterMap Operation.caller?).Nodup) :
    (empty : Desk κ).Ready operations :=
  ⟨⟨(fun _ member => nomatch member), List.nodup_nil⟩, own⟩

/-- A request waits under its id: it is found there, the id is taken, and nobody else can wait
there. -/
def Holds (desk : Desk κ) (request : Pending κ) : Prop :=
  desk.registry.find? request.id = some request ∧ request.id ∈ desk.registry.inUse ∧
    ∀ tag deadline caller frame, desk.registry.register request.id tag deadline caller frame =
      .error (.alreadyPending request.id)

omit [DecidableEq κ] in
private theorem Ready.holds_of_waits {later : List (Operation κ)} (ready : desk.Ready later)
    {request : Pending κ} (waits : request ∈ desk.registry.pending)
    (proper : request.id ≠ .none) : desk.Holds request := by
  have taken := ready.tidy.taken request waits
  have found := ready.tidy.find?_eq_some waits
  exact ⟨found, taken, Registry.register_of_find?_eq_some proper taken found⟩

/-- The operation that ends a request tells its caller, and nothing does so later. -/
private theorem Ready.tells {ending : Operation κ} {onward : List (Operation κ)}
    (ready : desk.Ready (ending :: onward)) {request : Pending κ}
    (waits : request ∈ desk.registry.pending) (ended : ending.ends request) :
    let told := if request.awaited then (ending.result? request).toList else []
    results request.caller (desk.apply ending).2 = told ∧
      results request.caller (desk.run (ending :: onward)).2 = told := by
  intro told
  have first : results request.caller (desk.apply ending).2 = told :=
    (ready.results_apply waits).trans (if_congr (and_iff_right ended) rfl rfl)
  have silent := ready.next.silent (ready.ends waits ended).2.2
  refine ⟨first, ?_⟩
  rw [run_cons, results_append, first, silent, List.append_nil]

/-- A request that was let in changes only in when it was sent, and in whether its caller still
listens. -/
private theorem afterAll_of_entrant {earlier : List (Operation κ)} {entry : Operation κ}
    {request : Pending κ} (enters : (after earlier).entrant? entry = some request)
    (before : List (Operation κ)) :
    request.afterAll before = { request with
      awaited := .abandon request.caller ∉ earlier ++ before
      sentAt := (request.afterAll before).sentAt } := by
  have awaited := (entrant?_eq_some enters).2.2.2.2.1
  have shape := Pending.afterAll_eq request before
  have always : (request.awaited && decide (.abandon request.caller ∉ before)) =
      decide (.abandon request.caller ∉ earlier ++ before) := by
    rw [awaited, ← Bool.decide_and]
    apply decide_eq_decide.mpr
    simp [after, mem_gone_run, empty]
  rwa [always] at shape

private theorem silent_until {earlier before rest : List (Operation κ)} {entry : Operation κ}
    (ready : (empty : Desk κ).Ready (earlier ++ entry :: (before ++ rest))) {request : Pending κ}
    (enters : (after earlier).entrant? entry = some request) (outlives : request.outlives before) :
    results request.caller (empty.run (earlier ++ entry :: before)).2 = [] := by
  have coming : (after earlier).Ready (entry :: before ++ rest) := ready.later
  have unheard : results request.caller (empty.run earlier).2 = [] := by
    apply ready.silent_before
    simp [(entrant?_eq_some enters).1]
  rw [run_append, results_append, unheard]
  exact (coming.holds enters outlives).2.2

/-- Whatever is done to a registry in whatever order, where every caller is handed over once at
most: a request that was let in stays as it was under its id, which is taken and under which nobody
else can wait, until the first operation that ends it. That operation takes it out, frees its id and
tells its caller, if that has not dropped its end before, what the operation comes to; to be
released is to be told nothing. The caller is told nothing else in the whole run. No operation tells
a caller anything whose request it does not end, and the requests that time runs out for are those
whose callers dropped their ends and those whose deadline has come. -/
theorem every_request_ends_once {operations : List (Operation κ)}
    (own : (operations.filterMap Operation.caller?).Nodup) :
    (∀ earlier entry later request, operations = earlier ++ entry :: later →
      (after earlier).entrant? entry = some request →
      ∀ before rest, later = before ++ rest → request.outlives before →
        let waiting := request.afterAll before
        let desk := after (earlier ++ entry :: before)
        waiting = { request with
            awaited := .abandon request.caller ∉ earlier ++ before
            sentAt := waiting.sentAt } ∧
          desk.Holds waiting ∧
          results request.caller (empty.run (earlier ++ entry :: before)).2 = [] ∧
          ∀ ending onward, rest = ending :: onward → ending.ends waiting →
            let told := if waiting.awaited then (ending.result? waiting).toList else []
            let next := (desk.apply ending).1.registry
            next.find? request.id = none ∧ request.id ∉ next.inUse ∧
              results request.caller (desk.apply ending).2 = told ∧
              results request.caller (empty.run operations).2 = told) ∧
      ∀ before operation rest, operations = before ++ operation :: rest →
        (∀ delivery ∈ ((after before).apply operation).2,
          ∃ request ∈ (after before).registry.pending, operation.ends request ∧
            delivery ∈ request.deliver (operation.outcome request)) ∧
          ∀ now, operation = .expire now →
            ((after before).apply operation).1.registry.pending =
              (after before).registry.pending.filter fun request =>
                request.awaited ∧ ∀ deadline ∈ request.deadline, now.nanos < deadline.nanos := by
  have ready := ready_empty own
  constructor
  · rintro earlier entry later request rfl enters before rest rfl outlives
    have coming : (after earlier).Ready (entry :: before ++ rest) := ready.later
    intro waiting desk
    have place : desk = ((after earlier).run (entry :: before)).1 := by
      simp [desk, after, run_append]
    obtain ⟨stays, now, _⟩ := coming.holds enters outlives
    rw [← place] at stays now
    have proper : waiting.id ≠ .none := by
      rw [Pending.id_afterAll]
      exact (entrant?_eq_some enters).2.1
    have silence := silent_until ready enters outlives
    refine ⟨afterAll_of_entrant enters before, now.holds_of_waits stays proper, silence, ?_⟩
    rintro ending onward rfl ended told next
    obtain ⟨absent, free, _⟩ := now.ends stays ended
    obtain ⟨last, whole⟩ := now.tells stays ended
    rw [Pending.caller_afterAll] at last whole
    rw [Pending.id_afterAll] at absent free
    refine ⟨absent, free, last, ?_⟩
    have split : earlier ++ entry :: (before ++ ending :: onward) =
        (earlier ++ entry :: before) ++ ending :: onward := by simp
    rw [split, run_append, results_append, silence, List.nil_append]
    exact whole
  · rintro before operation rest rfl
    have ready : (after before).Ready (operation :: rest) := ready.later
    constructor
    · intro delivery told
      rw [told_apply ready.tidy operation] at told
      obtain ⟨request, among, told⟩ := List.mem_flatMap.mp told
      obtain ⟨waits, ended⟩ := List.mem_filter.mp among
      exact ⟨request, waits, ended, told⟩
    · rintro now rfl
      rw [pending_apply ready.tidy _ ready.fresh]
      simp [entrant?, Operation.ends, Operation.touch, Pending.not_isStale]

/-- Two requests wait, the first times out, the second is answered and both are failed too late. -/
def crossed : List (Operation Nat) :=
  [.allocate, .register ⟨1⟩ 0 (some ⟨5⟩) 7 [], .allocate, .register ⟨2⟩ 0 none 8 [],
    .markSent ⟨1⟩ ⟨3⟩, .expire ⟨5⟩, .resolve ⟨2⟩ (.status ⟨⟨4⟩, .ok⟩), .reject ⟨1⟩ .closed,
    .rejectAll .closed]

theorem every_request_ends_once_timeout :
    (crossed.filterMap Operation.caller?).Nodup ∧
      (after (crossed.take 5)).Holds ⟨⟨1⟩, 0, some ⟨5⟩, 7, true, [], some ⟨3⟩⟩ ∧
      results 7 (empty.run crossed).2 = [.error (.timeout ⟨1⟩)] := by
  have own : (crossed.filterMap Operation.caller?).Nodup := by decide
  obtain ⟨_, holds, _, ends⟩ := (every_request_ends_once own).1 [.allocate]
    (.register ⟨1⟩ 0 (some ⟨5⟩) 7 []) (crossed.drop 2) ⟨⟨1⟩, 0, some ⟨5⟩, 7, true, [], none⟩ rfl rfl
    ((crossed.drop 2).take 3) (crossed.drop 5) rfl rfl
  obtain ⟨_, _, _, told⟩ := ends (.expire ⟨5⟩) (crossed.drop 6) rfl rfl
  exact ⟨own, holds, told⟩

end Desk

end Tether.Session
