import Tether.Message.RequestId

namespace Tether.Session

/-- A finite set of request ids. -/
structure IdSet where
  ids : List RequestId
  nodup : ids.Nodup

namespace IdSet

def empty : IdSet := ⟨[], List.nodup_nil⟩

instance : Membership RequestId IdSet := ⟨fun set id => id ∈ set.ids⟩

instance (id : RequestId) (set : IdSet) : Decidable (id ∈ set) :=
  inferInstanceAs (Decidable (id ∈ set.ids))

def size (set : IdSet) : Nat := set.ids.length

def insert (set : IdSet) (id : RequestId) : IdSet :=
  if absent : id ∈ set.ids then set
  else ⟨id :: set.ids, List.nodup_cons.mpr ⟨absent, set.nodup⟩⟩

def erase (set : IdSet) (id : RequestId) : IdSet :=
  ⟨set.ids.filter (· ≠ id), set.nodup.filter _⟩

@[simp] theorem not_mem_empty (id : RequestId) : id ∉ empty := List.not_mem_nil

@[simp] theorem mem_insert {set : IdSet} {id other : RequestId} :
    other ∈ set.insert id ↔ other = id ∨ other ∈ set := by
  by_cases present : id ∈ set.ids
  · have same : set.insert id = set := by simp [insert, present]
    rw [same]
    constructor
    · exact Or.inr
    · rintro (rfl | member)
      · exact present
      · exact member
  · have grown : (set.insert id).ids = id :: set.ids := by simp [insert, present]
    change other ∈ (set.insert id).ids ↔ other = id ∨ other ∈ set.ids
    rw [grown, List.mem_cons]

@[simp] theorem mem_erase {set : IdSet} {id other : RequestId} :
    other ∈ set.erase id ↔ other ∈ set ∧ other ≠ id := by
  change other ∈ set.ids.filter (· ≠ id) ↔ other ∈ set.ids ∧ other ≠ id
  simp

theorem erase_insert {set : IdSet} {id : RequestId} (absent : id ∉ set) :
    (set.insert id).erase id = set := by
  obtain ⟨ids, distinct⟩ := set
  have absent : id ∉ ids := absent
  have others : ids.filter (· ≠ id) = ids := by
    apply List.filter_eq_self.mpr
    intro other member
    exact decide_eq_true fun same => absent (same ▸ member)
  simpa [insert, erase, absent] using others

end IdSet

end Tether.Session
