import Mathlib.Data.Set.Card
import Tether.Proofs.Session.Endings
import Tether.Proofs.Session.Pool
import Tether.Proofs.Session.Slots

namespace Tether.Session

variable {κ : Type}

namespace Registry

/-- Ids are given back, and no request waits under a new one. -/
structure Returns (registry : Registry κ) (ids : List RequestId) (next : Registry κ) : Prop where
  cursor : next.cursor = registry.cursor
  inUse : ∀ id, id ∈ next.inUse ↔ id ∈ registry.inUse ∧ id ∉ ids
  pending : ∀ request ∈ next.pending, request.id ∉ ids ∧
    (request.id ∈ registry.inUse ∨ request.id ∈ registry.pending.map Pending.id)

variable {registry : Registry κ}

theorem returns_freeAll (registry : Registry κ) (ids : List RequestId) :
    registry.Returns ids (ids.foldl free registry) where
  cursor := cursor_freeAll registry ids
  inUse := mem_inUse_freeAll registry ids
  pending request waits := by
    rw [pending_freeAll] at waits
    obtain ⟨waited, spared⟩ := List.mem_filter.mp waits
    exact ⟨of_decide_eq_true spared, Or.inr (List.mem_map_of_mem waited)⟩

theorem returns_self (registry : Registry κ) : registry.Returns [] registry :=
  registry.returns_freeAll []

theorem Returns.change {ids : List RequestId} {next : Registry κ} (returns : registry.Returns ids next)
    {change : Pending κ → Pending κ} (keeps : ∀ request, (change request).id = request.id) :
    registry.Returns ids { next with pending := next.pending.map change } where
  cursor := returns.cursor
  inUse := returns.inUse
  pending request waits := by
    obtain ⟨old, waited, rfl⟩ := List.mem_map.mp waits
    rw [keeps]
    exact returns.pending old waited

theorem returns_register {next : Registry κ} {id : RequestId} {tag : UInt16}
    {deadline : Option Time.Instant} {caller : κ} {frame : Bytes}
    (registered : registry.register id tag deadline caller frame = .ok next) :
    registry.Returns [] next := by
  have taken := (register_admits registered).2.1
  rw [register_eq_ok registered]
  refine ⟨rfl, fun id => by simp, ?_⟩
  intro request waits
  rcases List.mem_append.mp waits with waited | new
  · exact registry.returns_self.pending request waited
  · rw [List.mem_singleton.mp new]
    exact ⟨List.not_mem_nil, Or.inl taken⟩

/-- The first id after the cursor, in a circle, that is proper and free. -/
structure InTurn (registry : Registry κ) (id : RequestId) : Prop where
  proper : id ≠ .none
  free : id ∉ registry.inUse
  first : ∀ other, other ≠ .none → other ∉ registry.inUse →
    distance ⟨registry.cursor + 1⟩ id ≤ distance ⟨registry.cursor + 1⟩ other

theorem inTurn_of_allocate {taken : Registry κ} {id : RequestId}
    (allocated : registry.allocate = .ok (id, taken)) : registry.InTurn id := by
  obtain ⟨proper, free, passed, bound, place, skipped⟩ :=
    nextFree_eq_some (allocate_eq_ok allocated).1
  have steps : distance ⟨registry.cursor + 1⟩ id = passed := by
    simp only [distance, place, UInt8.toNat_sub, UInt8.toNat_add, UInt8.toNat_ofNat',
      UInt8.toNat_one]
    have cursor := registry.cursor.toNat_lt
    omega
  refine ⟨proper, free, ?_⟩
  intro other real spare
  rw [steps]
  by_contra sooner
  have spot : other.byte = registry.cursor + 1 +
      UInt8.ofNat (distance ⟨registry.cursor + 1⟩ other) := by
    rw [distance, UInt8.ofNat_toNat, UInt8.add_comm, UInt8.sub_add_cancel]
  have passes := skipped _ (Nat.lt_of_not_le sooner)
  rw [← spot] at passes
  exact passes.elim real spare

theorem InTurn.unique {one other : RequestId} (first : registry.InTurn one)
    (second : registry.InTurn other) : one = other := by
  have near := first.first other second.proper second.free
  have far := second.first one first.proper first.free
  exact eq_of_distance_eq (Nat.le_antisymm near far)

/-- An id is handed out exactly if it is the next in turn. -/
theorem exists_allocate_iff {id : RequestId} :
    (∃ taken, registry.allocate = .ok (id, taken)) ↔ registry.InTurn id := by
  constructor
  · rintro ⟨taken, allocated⟩
    exact inTurn_of_allocate allocated
  · intro turn
    cases allocated : registry.allocate with
    | error cause => exact absurd ((allocate_eq_error.mp allocated).2 id turn.proper) turn.free
    | ok pair =>
      obtain ⟨new, taken⟩ := pair
      rw [turn.unique (inTurn_of_allocate allocated)]
      exact ⟨taken, rfl⟩

/-- An id is next in turn as long as fewer than 255 are taken. -/
theorem exists_inTurn_iff (proper : .none ∉ registry.inUse) :
    (∃ id, registry.InTurn id) ↔ registry.inUse.size < 255 := by
  have full := length_eq_iff_of_nodup registry.inUse.nodup proper
  have within : registry.inUse.ids.Subperm properIds :=
    List.subperm_of_subset registry.inUse.nodup fun id member =>
      mem_properIds.mpr fun zero => proper (zero ▸ member)
  have bound : registry.inUse.ids.length ≤ 255 := by simpa [properIds] using within.length_le
  rw [IdSet.size, Nat.lt_iff_le_and_ne, and_iff_right bound, Ne, full]
  constructor
  · rintro ⟨id, turn⟩ whole
    exact turn.free (whole id turn.proper)
  · intro spare
    cases allocated : registry.allocate with
    | error cause => exact absurd (allocate_eq_error.mp allocated).2 spare
    | ok pair => exact ⟨pair.1, inTurn_of_allocate allocated⟩

end Registry

namespace Desk

variable [DecidableEq κ]

def issued? (desk : Desk κ) : Operation κ → Option RequestId
  | .allocate =>
    match desk.registry.allocate with
    | .ok (id, _) => some id
    | .error _ => none
  | _ => none

/-- The ids that an operation gives back. -/
def givenBack (desk : Desk κ) : Operation κ → List RequestId
  | .release id => [id]
  | .resolve id _ => if desk.registry.isPending id then [id] else []
  | .reject id _ => if desk.registry.isPending id then [id] else []
  | .expire now => desk.registry.staleIds now
  | .rejectAll _ => desk.registry.pending.map Pending.id
  | _ => []

theorem issued?_eq_some {desk : Desk κ} {operation : Operation κ} {id : RequestId}
    (issued : desk.issued? operation = some id) :
    operation = .allocate ∧ ∃ taken, desk.registry.allocate = .ok (id, taken) ∧
      (desk.apply operation).1.registry = taken := by
  cases operation with
  | allocate =>
    simp only [issued?] at issued
    cases allocated : desk.registry.allocate with
    | error cause => simp [allocated] at issued
    | ok pair =>
      obtain ⟨new, taken⟩ := pair
      simp only [allocated, Option.some.injEq] at issued
      subst issued
      exact ⟨rfl, taken, rfl, by simp only [apply, allocated]⟩
  | _ => simp [issued?] at issued

/-- An operation that hands no id out does nothing to the ids but give some back. -/
theorem returns_apply {desk : Desk κ} {operation : Operation κ}
    (none : desk.issued? operation = none) :
    desk.registry.Returns (desk.givenBack operation) (desk.apply operation).1.registry := by
  cases operation with
  | allocate =>
    simp only [issued?] at none
    simp only [apply]
    cases allocated : desk.registry.allocate with
    | error cause => exact desk.registry.returns_self
    | ok pair => simp [allocated] at none
  | register id tag deadline caller frame =>
    simp only [apply]
    cases registered : desk.registry.register id tag deadline caller frame with
    | error cause => exact desk.registry.returns_self
    | ok next =>
      have returns := Registry.returns_register registered
      by_cases left : caller ∈ desk.gone
      · simp only [left, ↓reduceIte]
        exact returns.change fun request => by split <;> rfl
      · simp only [left, ↓reduceIte]
        exact returns
  | release id =>
    simp only [apply, Registry.release_fst]
    exact desk.registry.returns_freeAll [id]
  | resolve id message =>
    cases found : desk.registry.find? id with
    | none =>
      simp only [apply, givenBack, Registry.resolve?, Registry.settle?, Registry.isPending, found]
      exact desk.registry.returns_self
    | some request =>
      simp only [apply, givenBack, Registry.resolve?, Registry.settle?, Registry.isPending, found]
      exact desk.registry.returns_freeAll [id]
  | reject id cause =>
    cases found : desk.registry.find? id with
    | none =>
      simp only [apply, givenBack, Registry.reject?, Registry.settle?, Registry.isPending, found]
      exact desk.registry.returns_self
    | some request =>
      simp only [apply, givenBack, Registry.reject?, Registry.settle?, Registry.isPending, found]
      exact desk.registry.returns_freeAll [id]
  | markSent id time => exact desk.registry.returns_self.change fun request => by split <;> rfl
  | takeUnanswered => exact desk.registry.returns_self.change fun _ => rfl
  | expire now => exact desk.registry.returns_freeAll (desk.registry.staleIds now)
  | rejectAll cause =>
    simp only [apply, Registry.rejectAll_eq]
    exact desk.registry.returns_freeAll _
  | abandon caller => exact desk.registry.returns_self.change fun request => by split <;> rfl

theorem cursor_apply (desk : Desk κ) (operation : Operation κ) :
    (desk.apply operation).1.registry.cursor =
      ((desk.issued? operation).map RequestId.byte).getD desk.registry.cursor := by
  cases issued : desk.issued? operation with
  | none => exact (returns_apply issued).cursor
  | some id =>
    obtain ⟨_, taken, allocated, same⟩ := issued?_eq_some issued
    rw [same, (Registry.allocate_eq_ok allocated).2]
    rfl

/-- After an operation those ids are taken that it handed out, and those that were taken and that it
did not give back. -/
theorem mem_inUse_apply (desk : Desk κ) (operation : Operation κ) (id : RequestId) :
    id ∈ (desk.apply operation).1.registry.inUse ↔
      desk.issued? operation = some id ∨
        id ∈ desk.registry.inUse ∧ id ∉ desk.givenBack operation := by
  cases issued : desk.issued? operation with
  | none => simpa using (returns_apply issued).inUse id
  | some new =>
    obtain ⟨rfl, taken, allocated, same⟩ := issued?_eq_some issued
    rw [same, (Registry.allocate_eq_ok allocated).2, IdSet.mem_insert]
    simp [givenBack, eq_comm]

/-- An id was handed out and has not been given back since. -/
def Outstanding (operations : List (Operation κ)) (id : RequestId) : Prop :=
  Lasting (fun before entry => (after before).issued? entry = some id)
    (fun before operation => id ∈ (after before).givenBack operation) operations

theorem mem_inUse_after (operations : List (Operation κ)) (id : RequestId) :
    id ∈ (after operations).registry.inUse ↔ Outstanding operations id := by
  induction operations using List.reverseRecOn with
  | nil => exact iff_of_false (IdSet.not_mem_empty id) not_lasting_nil
  | append_singleton operations operation ih =>
    rw [after_concat, mem_inUse_apply, ih, Outstanding, Outstanding, lasting_concat]

theorem sound_after (operations : List (Operation κ)) :
    .none ∉ (after operations).registry.inUse ∧
      ∀ request ∈ (after operations).registry.pending,
        request.id ∈ (after operations).registry.inUse := by
  induction operations using List.reverseRecOn with
  | nil => exact ⟨IdSet.not_mem_empty _, fun _ member => absurd member List.not_mem_nil⟩
  | append_singleton operations operation ih =>
    obtain ⟨proper, within⟩ := ih
    rw [after_concat]
    cases issued : (after operations).issued? operation with
    | none =>
      have returns := returns_apply issued
      refine ⟨fun zero => proper ((returns.inUse _).mp zero).1, ?_⟩
      intro request waits
      obtain ⟨kept, known⟩ := returns.pending request waits
      refine (returns.inUse _).mpr ⟨?_, kept⟩
      rcases known with taken | waited
      · exact taken
      · obtain ⟨old, member, same⟩ := List.mem_map.mp waited
        exact same ▸ within old member
    | some id =>
      obtain ⟨_, taken, allocated, same⟩ := issued?_eq_some issued
      have fresh := Registry.allocate_fresh allocated
      rw [same, (Registry.allocate_eq_ok allocated).2]
      refine ⟨?_, fun request waits => IdSet.mem_insert.mpr (Or.inr (within request waits))⟩
      intro zero
      rcases IdSet.mem_insert.mp zero with none | older
      · exact fresh.1 none.symm
      · exact proper older

/-- As many ids are taken as are outstanding. -/
theorem ncard_outstanding (operations : List (Operation κ)) :
    {id | Outstanding operations id}.ncard = (after operations).registry.inUse.size := by
  have same : {id | Outstanding operations id} =
      ((after operations).registry.inUse.ids.toFinset : Set RequestId) := by
    ext id
    rw [Set.mem_ofPred_eq, ← mem_inUse_after, Finset.mem_coe, List.mem_toFinset]
    rfl
  rw [same, Set.ncard_coe_finset,
    List.toFinset_card_of_nodup (after operations).registry.inUse.nodup]
  rfl

end Desk

namespace Slots

theorem Shows.returns {slots : Slots} {registry next : Registry κ} {ids : List RequestId}
    (agree : slots.Shows registry) (returns : registry.Returns ids next) :
    (ids.foldl clear slots).Shows next where
  cursor := by rw [cursor_clearAll, agree.cursor, returns.cursor]
  isSet id := by
    rw [isSet_clearAll, agree.isSet, ← Bool.decide_and]
    apply decide_eq_decide.mpr
    rw [returns.inUse, and_comm]

variable [DecidableEq κ]

/-- The bits after an operation: an allocation walks over them, and ids that are given back are
cleared. -/
def follow (slots : Slots) (desk : Desk κ) : Operation κ → Slots
  | .allocate => slots.allocate.2
  | operation => (desk.givenBack operation).foldl clear slots

def along (slots : Slots) (desk : Desk κ) : List (Operation κ) → Slots
  | [] => slots
  | operation :: later => (slots.follow desk operation).along (desk.apply operation).1 later

theorem Shows.follow {slots : Slots} {desk : Desk κ} (agree : slots.Shows desk.registry)
    (operation : Operation κ) :
    (slots.follow desk operation).Shows (desk.apply operation).1.registry := by
  cases operation with
  | allocate =>
    have walks := agree.allocate
    simp only [Slots.follow, Desk.apply]
    cases allocated : desk.registry.allocate with
    | error cause =>
      rw [allocated] at walks
      rw [walks]
      exact agree
    | ok pair =>
      rw [allocated] at walks
      exact walks.2
  | _ => exact agree.returns (Desk.returns_apply rfl)

theorem Shows.along {slots : Slots} {desk : Desk κ} (agree : slots.Shows desk.registry)
    (operations : List (Operation κ)) :
    (slots.along desk operations).Shows (desk.run operations).1.registry := by
  induction operations generalizing slots desk with
  | nil => exact agree
  | cons operation later ih => exact ih (agree.follow operation)

end Slots

/-- Whatever was done to a registry: zero is not taken, requests wait under ids that are taken, and
those are taken that were handed out and not given back since, none counted twice. An allocation
hands out the first id after the cursor, in a circle, that is proper and free; it fails if and only
if 255 ids are taken, and then it changes nothing. Four words of bits that every operation changes in
place, with a cursor that walks over them bit by bit, tell the same: which ids are taken, how many,
and what an allocation hands out, and a walk that finds nothing leaves them as they were, the cursor
included. -/
theorem Desk.ids_are_handed_out_in_turn [DecidableEq κ] (operations : List (Operation κ)) :
    let desk := after operations
    let registry := desk.registry
    let slots := Slots.empty.along empty operations
    (.none ∉ registry.inUse ∧ ∀ request ∈ registry.pending, request.id ∈ registry.inUse) ∧
      (∀ id, id ∈ registry.inUse ↔ Outstanding operations id) ∧
      registry.inUse.size = {id | Outstanding operations id}.ncard ∧
      (∀ id, (∃ taken, registry.allocate = .ok (id, taken)) ↔ registry.InTurn id) ∧
      ((∃ id taken, registry.allocate = .ok (id, taken)) ↔ registry.inUse.size < 255) ∧
      (desk.issued? .allocate = none → (desk.apply .allocate).1 = desk) ∧
      slots.Shows registry ∧ slots.count = registry.inUse.size ∧
      slots.allocate.1 = desk.issued? .allocate ∧
      (slots.allocate.1 = none → slots.allocate.2 = slots) := by
  intro desk registry slots
  have agree : slots.Shows registry := Slots.shows_empty.along operations
  have walks := agree.allocate
  obtain ⟨proper, within⟩ := sound_after operations
  refine ⟨⟨proper, within⟩, mem_inUse_after operations, (ncard_outstanding operations).symm,
    fun id => Registry.exists_allocate_iff, ?_, ?_, agree, agree.count, ?_⟩
  · rw [← Registry.exists_inTurn_iff proper]
    exact exists_congr fun id => Registry.exists_allocate_iff
  · intro failed
    simp only [issued?] at failed
    simp only [apply]
    cases allocated : desk.registry.allocate with
    | error cause => rfl
    | ok pair => simp [allocated] at failed
  · simp only [issued?]
    cases allocated : registry.allocate with
    | error cause =>
      rw [allocated] at walks
      rw [walks]
      exact ⟨rfl, fun _ => rfl⟩
    | ok pair =>
      rw [allocated] at walks
      rw [walks.1]
      exact ⟨rfl, fun none => by cases none⟩

namespace Desk

variable [DecidableEq κ]

/-- An id was taken at some moment between operations that came first and the end of others. -/
def TakenDuring (first between : List (Operation κ)) (id : RequestId) : Prop :=
  ∃ since rest, between = since ++ rest ∧ id ∈ (after (first ++ since)).registry.inUse

theorem TakenDuring.concat {first between : List (Operation κ)} {id : RequestId}
    (taken : TakenDuring first between id) (operation : Operation κ) :
    TakenDuring first (between ++ [operation]) id := by
  obtain ⟨since, rest, rfl, member⟩ := taken
  exact ⟨since, rest ++ [operation], List.append_assoc .., member⟩

/-- From an id that was handed out the cursor goes round the circle, and every id that it comes past
is taken at that moment. -/
theorem rounded_during {first : List (Operation κ)} {id : RequestId}
    (starts : (after first).registry.cursor = id.byte) (between : List (Operation κ)) :
    Rounded (TakenDuring first between) id ⟨(after (first ++ between)).registry.cursor⟩ := by
  induction between using List.reverseRecOn with
  | nil =>
    rw [List.append_nil, starts]
    exact Rounded.self _ id
  | append_singleton between operation ih =>
    have grows (other : RequestId) (taken : TakenDuring first between other) :=
      taken.concat operation
    rw [← List.append_assoc, after_concat, cursor_apply]
    cases issued : (after (first ++ between)).issued? operation with
    | none => exact ih.mono grows
    | some new =>
      obtain ⟨_, taken, allocated, _⟩ := issued?_eq_some issued
      have found := (Registry.allocate_eq_ok allocated).1
      -- What the search passes over is taken now, and what it ends at from now on.
      have passed (other : RequestId) (busy : TakenDuring first between other ∨
          other ∈ (after (first ++ between)).registry.inUse ∨ other = new) :
          TakenDuring first (between ++ [operation]) other := by
        rcases busy with earlier | now | rfl
        · exact grows other earlier
        · exact ⟨between, [operation], rfl, now⟩
        · refine ⟨between ++ [operation], [], (List.append_nil _).symm, ?_⟩
          rw [← List.append_assoc, after_concat, mem_inUse_apply]
          exact Or.inl issued
      rcases ih.search found passed with ⟨_, onward⟩ | circle
      · exact onward
      · exact Or.inl circle

/-- However a registry was used before and in between: if an allocation hands out an id and a later
one hands it out again, every other id was taken at some moment after the first and not later than
the second. -/
theorem every_other_id_comes_first {first between : List (Operation κ)} {id : RequestId}
    (one : (after first).issued? .allocate = some id)
    (again : (after (first ++ .allocate :: between)).issued? .allocate = some id)
    {other : RequestId} (proper : other ≠ .none) (apart : other ≠ id) :
    ∃ since rest, between = since ++ rest ∧
      other ∈ (after (first ++ .allocate :: since)).registry.inUse := by
  have starts : (after (first ++ [.allocate])).registry.cursor = id.byte := by
    rw [after_concat, cursor_apply, one]
    rfl
  have rounded := rounded_during starts between
  rw [List.append_assoc, List.singleton_append] at rounded
  obtain ⟨_, taken, allocated, _⟩ := issued?_eq_some again
  have found := (Registry.allocate_eq_ok allocated).1
  have passed (other : RequestId) (busy : TakenDuring (first ++ [.allocate]) between other ∨
      other ∈ (after (first ++ .allocate :: between)).registry.inUse ∨ other = id) :
      TakenDuring (first ++ [.allocate]) between other ∨ other = id := by
    rcases busy with earlier | now | same
    · exact Or.inl earlier
    · left
      refine ⟨between, [], (List.append_nil _).symm, ?_⟩
      rwa [List.append_assoc, List.singleton_append]
    · exact Or.inr same
  rcases rounded.search found passed with ⟨differs, _⟩ | circle
  · exact absurd rfl differs
  · obtain ⟨since, rest, rfl, member⟩ := (circle other proper apart).resolve_right apart
    rw [List.append_assoc, List.singleton_append] at member
    exact ⟨since, rest, rfl, member⟩

/-- One id is given back at once, and so is every id that is handed out after it. -/
def revolution : List (Operation Nat) :=
  .release ⟨1⟩ :: (List.range 254).flatMap fun passed =>
    [.allocate, .release ⟨UInt8.ofNat (passed + 2)⟩]

theorem every_other_id_comes_first_round :
    (after ([] : List (Operation Nat))).issued? .allocate = some ⟨1⟩ ∧
      (after (.allocate :: revolution)).issued? .allocate = some ⟨1⟩ ∧
      ∃ since rest, revolution = since ++ rest ∧
        ⟨200⟩ ∈ (after (.allocate :: since)).registry.inUse := by
  have one : (after ([] : List (Operation Nat))).issued? .allocate = some ⟨1⟩ := by decide
  have again : (after ([] ++ .allocate :: revolution)).issued? .allocate = some ⟨1⟩ := by
    decide +kernel
  exact ⟨one, again, every_other_id_comes_first one again (by decide) (by decide)⟩

end Desk

end Tether.Session
