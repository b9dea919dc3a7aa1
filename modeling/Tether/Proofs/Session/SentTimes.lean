import Mathlib.Data.List.Induction
import Tether.Proofs.Session.Endings

/-! Whatever is done to a registry, in any order: a request counts as sent from the last time that
it was marked, unless all were counted as not sent since then. Marks from before it was let in are
not its own, even if an earlier request had its id. The frames that are to be sent again come in the
order of registration, although the table that holds the requests keeps no order. -/

namespace Tether.Session

open Message (ServerMessage)
open Time (Instant Timestamp)

variable {κ : Type}

/-- An id was marked at a time, and since then neither marked again nor counted as not sent. -/
def Marked (operations : List (Operation κ)) (id : RequestId) (time : Timestamp) : Prop :=
  Lasting (fun _ entry => entry = .markSent id time)
    (fun _ operation => operation = .takeUnanswered ∨ ∃ later, operation = .markSent id later)
    operations

theorem Pending.sentAt_afterAll [DecidableEq κ] {request : Pending κ} (fresh : request.sentAt = none)
    (since : List (Operation κ)) (time : Timestamp) :
    (request.afterAll since).sentAt = some time ↔ Marked since request.id time := by
  -- Taken from the end, since the last operation overrules those before.
  induction since using List.reverseRecOn with
  | nil => exact iff_of_false (by simp [afterAll, fresh]) not_lasting_nil
  | append_singleton since operation ih =>
    have last : request.afterAll (since ++ [operation]) =
        operation.touch (request.afterAll since) := by simp [afterAll]
    rw [last, Marked, lasting_concat, ← Marked, ← ih]
    cases operation with
    | markSent other mark =>
      by_cases same : request.id = other
      · simp [Operation.touch, same]
      · simp [Operation.touch, same, Ne.symm same]
    | takeUnanswered => simp [Operation.touch]
    | abandon caller =>
      simp only [Operation.touch]
      split <;> simp
    | _ => simp [Operation.touch]

/-- A request as it was let in, and the operations since. -/
structure Admission (κ : Type) where
  request : Pending κ
  since : List (Operation κ)

namespace Admission

variable [DecidableEq κ]

def lasts (admission : Admission κ) : Bool := admission.request.outlives admission.since

def now (admission : Admission κ) : Pending κ := admission.request.afterAll admission.since

end Admission

namespace Desk

variable [DecidableEq κ] {desk : Desk κ}

/-- Everyone that operations let in, in the order of registration. -/
def admissions (desk : Desk κ) : List (Operation κ) → List (Admission κ)
  | [] => []
  | operation :: later =>
    (desk.entrant? operation).toList.map (⟨·, later⟩) ++
      (desk.apply operation).1.admissions later

theorem mem_admissions {operations : List (Operation κ)} {admission : Admission κ} :
    admission ∈ desk.admissions operations ↔
      ∃ earlier entry, operations = earlier ++ entry :: admission.since ∧
        (desk.run earlier).1.entrant? entry = some admission.request := by
  induction operations generalizing desk with
  | nil => simp [admissions]
  | cons operation later ih =>
    rw [admissions, List.mem_append, ih]
    constructor
    · rintro (first | ⟨earlier, entry, rfl, enters⟩)
      · obtain ⟨request, enters, rfl⟩ := List.mem_map.mp first
        exact ⟨[], operation, rfl, Option.mem_toList.mp enters⟩
      · exact ⟨operation :: earlier, entry, rfl, enters⟩
    · rintro ⟨earlier, entry, whole, enters⟩
      cases earlier with
      | nil =>
        obtain ⟨rfl, rfl⟩ := List.cons.inj whole
        exact Or.inl (List.mem_map.mpr ⟨admission.request, Option.mem_toList.mpr enters, rfl⟩)
      | cons first earlier =>
        obtain ⟨rfl, rfl⟩ := List.cons.inj whole
        exact Or.inr ⟨earlier, entry, rfl, enters⟩

theorem sentAt_entrant {operation : Operation κ} {request : Pending κ}
    (enters : desk.entrant? operation = some request) : request.sentAt = none := by
  cases operation with
  | register id tag deadline caller frame =>
    simp only [entrant?] at enters
    split at enters
    · cases enters
      rfl
    · cases enters
  | _ => simp [entrant?] at enters

/-- Those wait that waited before and were left, and behind them those that were let in and left. -/
theorem Ready.pending_run {operations : List (Operation κ)} (ready : desk.Ready operations) :
    (desk.run operations).1.registry.pending =
      (desk.registry.pending.filter fun request => request.outlives operations).map
          (fun request => request.afterAll operations) ++
        ((desk.admissions operations).filter Admission.lasts).map Admission.now := by
  induction operations generalizing desk with
  | nil => simp [run, admissions, Pending.outlives, Pending.afterAll]
  | cons operation later ih =>
    -- For the operations that follow, whoever is let in now is one of those that wait.
    rw [run_cons, ih ready.next, pending_apply ready.tidy operation ready.fresh, admissions,
      List.filter_append, List.map_append, List.filter_append, List.map_append, List.append_assoc]
    congr 1
    · rw [List.filter_map, List.map_map, List.filter_filter]
      congr 1
      apply List.filter_congr
      intro request _
      exact Bool.and_comm _ _
    · congr 1
      rw [List.filter_map, List.map_map]
      rfl

end Desk

/-- The requests as a table holds them, in no order of its own, with the number that each was given
when it was registered. -/
structure Table (κ : Type) where
  entries : List (Nat × Pending κ)
  /-- The number of the next request. -/
  next : Nat

namespace Table

def empty : Table κ := ⟨[], 0⟩

/-- The frames that were sent and not answered, collected as they come and sorted by number. -/
def unanswered (table : Table κ) : List (RequestId × Bytes) :=
  let sent := table.entries.filter fun entry => entry.2.sentAt.isSome
  let found := sent.map fun entry => (entry.1, entry.2.id, entry.2.frame)
  (found.mergeSort fun one other => one.1 ≤ other.1).map Prod.snd

/-- The numbers of the requests follow the order of the registry. -/
def Shows (table : Table κ) (registry : Registry κ) : Prop :=
  ∃ numbered : List (Nat × Pending κ), table.entries.Perm numbered ∧
    numbered.map Prod.snd = registry.pending ∧
    numbered.Pairwise (fun one other => one.1 < other.1) ∧ ∀ entry ∈ numbered, entry.1 < table.next

theorem Shows.perm {table : Table κ} {registry : Registry κ} (agree : table.Shows registry) :
    (table.entries.map Prod.snd).Perm registry.pending := by
  obtain ⟨numbered, lies, pending, _⟩ := agree
  exact pending ▸ lies.map Prod.snd

/-- What was in strict order by number is found again when it is sorted by number. -/
theorem mergeSort_of_perm {α : Type} {entries numbered : List (Nat × α)}
    (lies : entries.Perm numbered) (order : numbered.Pairwise fun one other => one.1 < other.1) :
    (entries.mergeSort fun one other => one.1 ≤ other.1) = numbered := by
  have distinct : (numbered.map Prod.fst).Nodup :=
    List.pairwise_map.mpr (order.imp fun less => Nat.ne_of_lt less)
  have sorted : (entries.mergeSort fun one other => one.1 ≤ other.1).Pairwise
      fun one other => one.1 ≤ other.1 := by
    refine (List.pairwise_mergeSort ?_ ?_ entries).imp of_decide_eq_true
    · intro one other last less more
      exact decide_eq_true (Nat.le_trans (of_decide_eq_true less) (of_decide_eq_true more))
    · intro one other
      simpa using Nat.le_total one.1 other.1
  have same := (entries.mergeSort_perm fun one other => one.1 ≤ other.1).trans lies
  -- Sorting by number is no order on what is numbered, unless the numbers are distinct.
  refine same.eq_of_pairwise ?_ sorted (order.imp Nat.le_of_lt)
  intro one other among there less more
  exact List.inj_on_of_nodup_map distinct (same.subset among) there (Nat.le_antisymm less more)

/-- However the requests lie in the table, the frames come in the order of registration. -/
theorem Shows.unanswered {table : Table κ} {registry : Registry κ} (agree : table.Shows registry) :
    table.unanswered = registry.unanswered := by
  obtain ⟨numbered, lies, pending, order, _⟩ := agree
  have found := (lies.filter fun entry => entry.2.sentAt.isSome).map
    fun entry => (entry.1, entry.2.id, entry.2.frame)
  have ordered : ((numbered.filter fun entry => entry.2.sentAt.isSome).map
      fun entry => (entry.1, entry.2.id, entry.2.frame)).Pairwise
        fun one other => one.1 < other.1 :=
    List.pairwise_map.mpr (order.sublist List.filter_sublist)
  rw [Table.unanswered, mergeSort_of_perm found ordered, Registry.unanswered, ← pending,
    List.filter_map, List.map_map, List.map_map]
  rfl

variable [DecidableEq κ]

/-- An operation takes requests out of the table, touches them where they lie, and may put one in
under the next number. -/
def follow (table : Table κ) (desk : Desk κ) (operation : Operation κ) : Table κ where
  entries :=
    (table.entries.filter fun entry => !operation.ends entry.2).map
        (fun entry => (entry.1, operation.touch entry.2)) ++
      (desk.entrant? operation).toList.map (table.next, ·)
  next := table.next + (desk.entrant? operation).toList.length

/-- A table that operations may lead to. After each of them the requests may lie in any order. -/
inductive Follows : List (Operation κ) → Table κ → Prop
  | start : Follows [] empty
  | step {operations : List (Operation κ)} {table next : Table κ} (follows : Follows operations table)
      (operation : Operation κ)
      (lies : next.entries.Perm (table.follow (Desk.after operations) operation).entries)
      (number : next.next = (table.follow (Desk.after operations) operation).next) :
      Follows (operations ++ [operation]) next

omit [DecidableEq κ] in
theorem shows_empty : (empty : Table κ).Shows (.empty : Registry κ) :=
  ⟨[], List.Perm.refl _, rfl, List.Pairwise.nil, fun _ member => absurd member List.not_mem_nil⟩

/-- After an operation the numbers still follow the order of the registry. -/
theorem Shows.follow {table : Table κ} {desk : Desk κ} (agree : table.Shows desk.registry)
    {operation : Operation κ} {later : List (Operation κ)} (ready : desk.Ready (operation :: later)) :
    (table.follow desk operation).Shows (desk.apply operation).1.registry := by
  obtain ⟨numbered, lies, pending, order, bound⟩ := agree
  let stays := (numbered.filter fun entry => !operation.ends entry.2).map
    fun entry => (entry.1, operation.touch entry.2)
  have kept : stays.Pairwise fun one other => one.1 < other.1 :=
    List.pairwise_map.mpr (order.sublist List.filter_sublist)
  have older : ∀ entry ∈ stays, entry.1 < table.next := by
    intro entry member
    obtain ⟨old, among, rfl⟩ := List.mem_map.mp member
    exact bound old (List.mem_of_mem_filter among)
  refine ⟨stays ++ (desk.entrant? operation).toList.map (table.next, ·), ?_, ?_, ?_, ?_⟩
  · exact ((lies.filter _).map _).append_right _
  · rw [Desk.pending_apply ready.tidy operation ready.fresh, ← pending, List.filter_map]
    simp [stays, Function.comp_def]
  · cases desk.entrant? operation with
    | none => simpa using kept
    | some request =>
      refine List.pairwise_append.mpr ⟨kept, List.pairwise_singleton _ _, ?_⟩
      intro old among new member
      rw [List.mem_singleton.mp member]
      exact older old among
  · intro entry member
    rcases List.mem_append.mp member with old | new
    · exact Nat.lt_add_right _ (older entry old)
    · obtain ⟨request, enters, rfl⟩ := List.mem_map.mp new
      exact Nat.lt_add_of_pos_right (List.length_pos_of_mem enters)

omit [DecidableEq κ] in
/-- How the requests lie in a table does not matter. -/
theorem Shows.shuffle {table next : Table κ} {registry : Registry κ} (agree : table.Shows registry)
    (lies : next.entries.Perm table.entries) (number : next.next = table.next) :
    next.Shows registry := by
  obtain ⟨numbered, same, pending, order, bound⟩ := agree
  exact ⟨numbered, lies.trans same, pending, order, number ▸ bound⟩

theorem exists_follows (operations : List (Operation κ)) :
    ∃ table, Table.Follows operations table := by
  induction operations using List.reverseRecOn with
  | nil => exact ⟨empty, .start⟩
  | append_singleton operations operation ih =>
    obtain ⟨table, follows⟩ := ih
    exact ⟨_, follows.step operation (List.Perm.refl _) rfl⟩

theorem Follows.shows {operations : List (Operation κ)} {table : Table κ}
    (follows : Follows operations table) {later : List (Operation κ)}
    (ready : (Desk.empty : Desk κ).Ready (operations ++ later)) :
    table.Shows (Desk.after operations).registry := by
  induction follows generalizing later with
  | start => exact shows_empty
  | @step operations table next follows operation lies number ih =>
    rw [List.append_assoc, List.singleton_append] at ready
    have agree := (ih ready).follow ready.later
    rw [Desk.after_concat]
    exact agree.shuffle lies number

end Table

namespace Desk

variable [DecidableEq κ]

/-- Whatever is done to a registry in whatever order, where every caller is handed over once at
most: those requests wait that were let in and left, in the order of registration, and each shows as
the time of its sending that of the last mark under its id since it was let in, unless all were
counted as not sent since. The frames to be sent again are those that came with the requests that
were sent, each once and in that order, also when they are collected from a table that is shuffled
after every operation. Then all requests count as not sent. An answer to an id tells the caller that
waits under it when its request was sent, and nobody else anything. -/
theorem sent_requests_are_as_marked {operations : List (Operation κ)}
    (own : (operations.filterMap Operation.caller?).Nodup) :
    let desk := after operations
    let waiting := (empty.admissions operations).filter Admission.lasts
    let unsent := (desk.apply .takeUnanswered).1.registry
    (∀ admission : Admission κ, admission ∈ empty.admissions operations ↔
        ∃ earlier entry, operations = earlier ++ entry :: admission.since ∧
          (after earlier).entrant? entry = some admission.request) ∧
      desk.registry.pending = waiting.map Admission.now ∧
      (∀ admission ∈ waiting, ∀ time, admission.now.sentAt = some time ↔
        Marked admission.since admission.request.id time) ∧
      (desk.registry.unanswered =
          (waiting.filter fun admission => admission.now.sentAt.isSome).map
            fun admission => (admission.request.id, admission.request.frame)) ∧
      (desk.registry.unanswered.map Prod.fst).Nodup ∧
      (∀ table, Table.Follows operations table →
        (table.entries.map Prod.snd).Perm desk.registry.pending ∧
          table.unanswered = desk.registry.unanswered) ∧
      unsent.pending = waiting.map (fun admission => { admission.now with sentAt := none }) ∧
      unsent.unanswered = [] ∧
      ∀ id message, (desk.apply (.resolve id message)).2 =
        (waiting.filter fun admission => admission.request.id = id).flatMap fun admission =>
          admission.now.deliver (.reply ⟨message, admission.now.sentAt⟩) := by
  intro desk waiting unsent
  have ready := ready_empty own
  have whole : (empty : Desk κ).Ready (operations ++ []) := by rwa [List.append_nil]
  have now : desk.Ready [] := whole.later
  have pending : desk.registry.pending = waiting.map Admission.now := ready.pending_run
  have named (admission : Admission κ) : admission.now.id = admission.request.id :=
    Pending.id_afterAll ..
  have frame (admission : Admission κ) : admission.now.frame = admission.request.frame := by
    rw [Admission.now, Pending.afterAll_eq]
  have collected : desk.registry.unanswered =
      (waiting.filter fun admission => admission.now.sentAt.isSome).map
        fun admission => (admission.request.id, admission.request.frame) := by
    rw [Registry.unanswered, pending, List.filter_map, List.map_map]
    simp only [Function.comp_def, named, frame]
  refine ⟨fun _ => mem_admissions, pending, ?_, collected, ?_, ?_, ?_, ?_, ?_⟩
  · intro admission among time
    obtain ⟨earlier, entry, _, enters⟩ := mem_admissions.mp (List.mem_of_mem_filter among)
    exact Pending.sentAt_afterAll (sentAt_entrant enters) admission.since time
  · rw [Registry.unanswered, List.map_map]
    exact now.tidy.distinct.sublist (List.filter_sublist.map _)
  · intro table follows
    have agree := follows.shows whole
    exact ⟨agree.perm, agree.unanswered⟩
  · change desk.registry.pending.map _ = _
    rw [pending, List.map_map]
    rfl
  · change ((desk.registry.pending.map _).filter _).map _ = []
    simp
  · intro id message
    rw [told_apply now.tidy, pending, List.filter_map, List.flatMap_map]
    simp only [Function.comp_def, Operation.ends, named]
    rfl

/-- Three requests are marked out of order and counted as not sent; then two are marked again. -/
def resumed : List (Operation Nat) :=
  [.allocate, .register ⟨1⟩ 0 none 7 [10], .allocate, .register ⟨2⟩ 0 none 8 [20], .allocate,
    .register ⟨3⟩ 0 none 9 [30], .markSent ⟨3⟩ ⟨4⟩, .markSent ⟨1⟩ ⟨5⟩, .takeUnanswered,
    .markSent ⟨2⟩ ⟨6⟩, .markSent ⟨1⟩ ⟨7⟩, .markSent ⟨1⟩ ⟨8⟩]

theorem sent_requests_are_as_marked_again :
    (resumed.filterMap Operation.caller?).Nodup ∧
      (∃ table, Table.Follows resumed table ∧ table.unanswered = [(⟨1⟩, [10]), (⟨2⟩, [20])]) ∧
      ((after resumed).apply (.resolve ⟨1⟩ (.status ⟨⟨9⟩, .ok⟩))).2 =
        [⟨7, .reply ⟨.status ⟨⟨9⟩, .ok⟩, some ⟨8⟩⟩⟩] := by
  have own : (resumed.filterMap Operation.caller?).Nodup := by decide
  obtain ⟨_, _, _, collected, _, tables, _, _, told⟩ := sent_requests_are_as_marked own
  obtain ⟨table, follows⟩ := Table.exists_follows resumed
  refine ⟨own, ⟨table, follows, ?_⟩, told ⟨1⟩ (.status ⟨⟨9⟩, .ok⟩)⟩
  rw [(tables table follows).2, collected]
  rfl

end Desk

end Tether.Session
