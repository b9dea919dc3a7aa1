import Mathlib.Data.Finmap
import Mathlib.Data.Finset.Sort
import Tether.Proofs.Bytes
import Tether.Store

namespace Tether.Store

/-- A text is found under its key, and the other keys are as they were. -/
theorem get?_set (store : Store) (key value other : String) :
    (store.set key value).get? other = if other = key then some value else store.get? other := by
  obtain ⟨entries⟩ := store
  change (insertEntry key value entries).lookup other = if _ then _ else entries.lookup other
  have first (entries : List (String × String)) (key value : String) :
      ((key, value) :: entries).lookup other =
        if other = key then some value else entries.lookup other := by
    by_cases same : other = key
    · simp [same]
    · rw [List.lookup_cons, beq_false_of_ne same, if_neg same]
  induction entries with
  | nil => exact first [] key value
  | cons entry entries ih =>
    obtain ⟨there, old⟩ := entry
    simp only [insertEntry]
    split
    · rename_i same
      rw [first, first, same]
      split <;> rfl
    · rename_i apart
      split
      · exact first _ key value
      · rw [first, first, ih]
        by_cases same : other = there
        · rw [if_pos same, if_pos same, if_neg (same ▸ apart)]
        · rw [if_neg same, if_neg same]

/-- Nothing is found under a key that was taken out, and the other keys are as they were. -/
theorem get?_remove (store : Store) (key other : String) :
    (store.remove key).get? other = if other = key then none else store.get? other := by
  obtain ⟨entries⟩ := store
  change (entries.filter fun entry => entry.1 ≠ key).lookup other =
    if _ then _ else entries.lookup other
  induction entries with
  | nil => simp
  | cons entry entries ih =>
    obtain ⟨there, value⟩ := entry
    by_cases gone : there = key
    · subst gone
      rw [List.filter_cons_of_neg (by simp), ih, List.lookup_cons]
      by_cases same : other = there
      · rw [if_pos same, if_pos same]
      · rw [if_neg same, if_neg same, beq_false_of_ne same]
    · rw [List.filter_cons_of_pos (by simpa using gone), List.lookup_cons, List.lookup_cons, ih]
      by_cases same : other = there
      · subst same
        simp [gone]
      · rw [beq_false_of_ne same]

/-- The entries stand in the order of their keys, and no key is there twice. -/
def Ordered (entries : List (String × String)) : Prop :=
  entries.Pairwise fun one other => Bytes.ofText one.1 < Bytes.ofText other.1

theorem before_iff {left right : String} :
    before left right = true ↔ Bytes.ofText left < Bytes.ofText right :=
  decide_eq_true_iff

theorem mem_insertEntry {key value : String} {entry : String × String}
    {entries : List (String × String)} (member : entry ∈ insertEntry key value entries) :
    entry = (key, value) ∨ entry ∈ entries := by
  induction entries with
  | nil => exact Or.inl (List.mem_singleton.mp member)
  | cons first entries ih =>
    rw [insertEntry] at member
    split at member
    · exact (List.mem_cons.mp member).imp_right (List.mem_cons_of_mem first)
    · split at member
      · exact List.mem_cons.mp member
      · rcases List.mem_cons.mp member with rfl | later
        · exact Or.inr List.mem_cons_self
        · exact (ih later).imp_right (List.mem_cons_of_mem first)

theorem Ordered.insertEntry {entries : List (String × String)} (ordered : Ordered entries)
    (key value : String) : Ordered (insertEntry key value entries) := by
  induction entries with
  | nil => exact List.pairwise_singleton ..
  | cons first entries ih =>
    obtain ⟨least, rest⟩ := List.pairwise_cons.mp ordered
    rw [Store.insertEntry]
    split
    · rename_i same
      subst same
      exact List.pairwise_cons.mpr ⟨least, rest⟩
    · rename_i apart
      split
      · rename_i less
        refine List.pairwise_cons.mpr ⟨?_, ordered⟩
        intro other member
        rcases List.mem_cons.mp member with rfl | later
        · exact before_iff.mp less
        · exact List.lt_trans (before_iff.mp less) (least other later)
      · rename_i notLess
        refine List.pairwise_cons.mpr ⟨?_, ih rest⟩
        intro other member
        rcases mem_insertEntry member with rfl | later
        · rcases List.le_iff_lt_or_eq.mp (List.not_lt.mp (mt before_iff.mpr notLess)) with less | same
          · exact less
          · exact absurd (Bytes.ofText_injective same) apart
        · exact least other later

theorem Ordered.filter {entries : List (String × String)} (ordered : Ordered entries)
    (keep : String × String → Bool) : Ordered (entries.filter keep) :=
  List.Pairwise.filter keep ordered

theorem Ordered.lookup_eq_some_iff {entries : List (String × String)} (ordered : Ordered entries)
    {key value : String} : entries.lookup key = some value ↔ (key, value) ∈ entries := by
  rw [List.lookup_eq_some_iff]
  constructor
  · rintro ⟨front, behind, rfl, -⟩
    simp
  · intro member
    obtain ⟨front, behind, rfl⟩ := List.append_of_mem member
    refine ⟨front, behind, rfl, fun entry earlier => ?_⟩
    have less := (List.pairwise_append.mp ordered).2.2 entry earlier _ List.mem_cons_self
    rw [bne_iff_ne]
    rintro rfl
    exact List.lt_irrefl _ less

theorem beginsWith_iff {key start : String} :
    beginsWith key start = true ↔ start.toList <+: key.toList := by
  rw [beginsWith, List.isPrefixOf_iff_prefix, Bytes.ofText_prefix_iff]

theorem not_before_of_beginsWith {key start : String} (begins : beginsWith key start = true) :
    before key start = false := by
  have least := (List.isPrefixOf_iff_prefix.mp begins).le
  exact decide_eq_false (List.not_lt.mpr least)

/-- Keys with a beginning stand together: once a key at or behind the beginning has been passed that
does not begin with it, none comes any more. -/
theorem Ordered.takeWhile_eq_filter {entries : List (String × String)} (ordered : Ordered entries)
    {start : String} (fromStart : ∀ entry ∈ entries, Bytes.ofText start ≤ Bytes.ofText entry.1) :
    (entries.takeWhile fun entry => beginsWith entry.1 start) =
      entries.filter fun entry => beginsWith entry.1 start := by
  induction entries with
  | nil => rfl
  | cons first entries ih =>
    obtain ⟨least, rest⟩ := List.pairwise_cons.mp ordered
    obtain ⟨lower, lowers⟩ := List.forall_mem_cons.mp fromStart
    by_cases begins : beginsWith first.1 start = true
    · rw [List.takeWhile_cons, if_pos begins, List.filter_cons, if_pos begins, ih rest lowers]
    · rw [List.takeWhile_cons, if_neg begins, List.filter_cons, if_neg begins, eq_comm,
        List.filter_eq_nil_iff]
      intro entry later begins'
      have inside := Bytes.prefix_of_between lower (least entry later)
        (List.isPrefixOf_iff_prefix.mp begins')
      exact begins (List.isPrefixOf_iff_prefix.mpr inside)

/-- The pass over the keys misses none that has the beginning. -/
theorem Ordered.list_eq_filter {store : Store} (ordered : Ordered store.entries) (start : String) :
    store.list start =
      (store.entries.filter fun entry => beginsWith entry.1 start).map Prod.snd := by
  obtain ⟨entries⟩ := store
  refine congrArg (List.map Prod.snd) ?_
  change ((entries.dropWhile fun entry => before entry.1 start).takeWhile _) = entries.filter _
  change Ordered entries at ordered
  induction entries with
  | nil => rfl
  | cons first entries ih =>
    obtain ⟨least, rest⟩ := List.pairwise_cons.mp ordered
    by_cases early : before first.1 start = true
    · have outside : ¬beginsWith first.1 start = true := fun begins =>
        absurd early (by rw [not_before_of_beginsWith begins]; exact Bool.false_ne_true)
      rw [List.dropWhile_cons, if_pos early, List.filter_cons, if_neg outside]
      exact ih rest
    · have lower : Bytes.ofText start ≤ Bytes.ofText first.1 :=
        List.not_lt.mp (mt before_iff.mpr early)
      rw [List.dropWhile_cons, if_neg early]
      refine ordered.takeWhile_eq_filter fun entry member => ?_
      rcases List.mem_cons.mp member with rfl | later
      · exact lower
      · exact List.le_of_lt (List.lt_of_le_of_lt lower (least entry later))

/-- Something to do to a store, or to ask it. -/
inductive Op where
  | set (key value : String)
  | remove (key : String)
  | clear
  | get (key : String)
  | count
  | list (start : String)
  deriving DecidableEq, Repr

inductive Answer where
  | done
  | text (value : Option String)
  | number (count : Nat)
  | texts (values : List String)
  deriving DecidableEq, Repr

def perform (store : Store) : Op → Store × Answer
  | .set key value => (store.set key value, .done)
  | .remove key => (store.remove key, .done)
  | .clear => (empty, .done)
  | .get key => (store, .text (store.get? key))
  | .count => (store, .number store.size)
  | .list start => (store, .texts (store.list start))

def after (store : Store) (ops : List Op) : Store :=
  ops.foldl (fun store op => (store.perform op).1) store

def answers {σ : Type} (perform : σ → Op → σ × Answer) (state : σ) : List Op → List Answer
  | [] => []
  | op :: ops => (perform state op).2 :: answers perform (perform state op).1 ops

/-- A finite map from texts to texts. -/
abbrev Contents := Finmap fun _ : String => String

/-- Keys in the order of their bytes. -/
def KeyOrder (one other : String) : Prop := Bytes.ofText one ≤ Bytes.ofText other

instance : DecidableRel KeyOrder := fun _ _ => inferInstanceAs (Decidable (_ ≤ _))

instance : IsTrans String KeyOrder := ⟨fun _ _ _ => List.le_trans⟩

instance : Std.Antisymm KeyOrder :=
  ⟨fun _ _ one other => Bytes.ofText_injective (List.le_antisymm one other)⟩

instance : Std.Total KeyOrder := ⟨fun _ _ => List.le_total ..⟩

namespace Contents

/-- The keys that begin with a text, in order. -/
def keysWith (contents : Contents) (start : String) : List String :=
  (contents.keys.filter fun key => start.toList <+: key.toList).sort KeyOrder

/-- What an operation does to a finite map, and what it answers. -/
def perform (contents : Contents) : Op → Contents × Answer
  | .set key value => (contents.insert key value, .done)
  | .remove key => (contents.erase key, .done)
  | .clear => (∅, .done)
  | .get key => (contents, .text (contents.lookup key))
  | .count => (contents, .number contents.keys.card)
  | .list start => (contents, .texts ((contents.keysWith start).filterMap contents.lookup))

end Contents

/-- The store is in order and holds what the map does. -/
structure Holds (store : Store) (contents : Contents) : Prop where
  ordered : Ordered store.entries
  get? : ∀ key, store.get? key = contents.lookup key

theorem holds_empty : Holds empty ∅ := by
  refine ⟨List.Pairwise.nil, fun key => ?_⟩
  rw [Finmap.lookup_empty]
  rfl

namespace Holds

variable {store : Store} {contents : Contents}

theorem keys_eq (holds : Holds store contents) :
    contents.keys = (store.entries.map Prod.fst).toFinset := by
  ext key
  rw [Finmap.mem_keys, ← Finmap.lookup_isSome, ← holds.get?, List.mem_toFinset,
    Option.isSome_iff_exists]
  simp only [Store.get?, holds.ordered.lookup_eq_some_iff, List.mem_map, Prod.exists]
  constructor
  · rintro ⟨value, member⟩
    exact ⟨key, value, member, rfl⟩
  · rintro ⟨_, value, member, rfl⟩
    exact ⟨value, member⟩

theorem keys_nodup (holds : Holds store contents) : (store.entries.map Prod.fst).Nodup := by
  rw [List.Nodup, List.pairwise_map]
  refine holds.ordered.imp ?_
  intro one other less same
  exact List.lt_irrefl _ (same ▸ less)

theorem size_eq (holds : Holds store contents) : store.size = contents.keys.card := by
  rw [holds.keys_eq, List.toFinset_card_of_nodup holds.keys_nodup, List.length_map]
  rfl

theorem keysWith_eq (holds : Holds store contents) (start : String) :
    contents.keysWith start =
      (store.entries.filter fun entry => beginsWith entry.1 start).map Prod.fst := by
  have same : (contents.keys.filter fun key => start.toList <+: key.toList) =
      ((store.entries.filter fun entry => beginsWith entry.1 start).map Prod.fst).toFinset := by
    ext key
    rw [holds.keys_eq, Finset.mem_filter, List.mem_toFinset, List.mem_toFinset, List.mem_map,
      List.mem_map, ← beginsWith_iff]
    constructor
    · rintro ⟨⟨entry, member, rfl⟩, begins⟩
      exact ⟨entry, List.mem_filter.mpr ⟨member, begins⟩, rfl⟩
    · rintro ⟨entry, member, rfl⟩
      obtain ⟨present, begins⟩ := List.mem_filter.mp member
      exact ⟨⟨entry, present, rfl⟩, begins⟩
  have someKeys := List.filter_sublist (p := fun entry => beginsWith entry.1 start)
    (l := store.entries) |>.map Prod.fst
  rw [Contents.keysWith, same, List.toFinset_sort KeyOrder (someKeys.nodup holds.keys_nodup),
    List.pairwise_map]
  exact (holds.ordered.filter _).imp List.le_of_lt

theorem list_eq (holds : Holds store contents) (start : String) :
    store.list start = (contents.keysWith start).filterMap contents.lookup := by
  rw [holds.ordered.list_eq_filter, holds.keysWith_eq, List.filterMap_map]
  rw [← List.filterMap_eq_map]
  refine List.filterMap_congr fun entry member => ?_
  have present := (List.mem_filter.mp member).1
  exact ((holds.get? entry.1).symm.trans (holds.ordered.lookup_eq_some_iff.mpr present)).symm

/-- Both go on alike, and answer alike. -/
theorem perform (holds : Holds store contents) (op : Op) :
    Holds (store.perform op).1 (contents.perform op).1 ∧
      (store.perform op).2 = (contents.perform op).2 := by
  cases op with
  | set key value =>
    refine ⟨⟨holds.ordered.insertEntry key value, fun other => ?_⟩, rfl⟩
    refine (get?_set store key value other).trans ?_
    change _ = (contents.insert key value).lookup other
    split
    · rename_i same
      rw [same, Finmap.lookup_insert]
    · rename_i apart
      rw [Finmap.lookup_insert_of_ne contents apart, holds.get?]
  | remove key =>
    refine ⟨⟨holds.ordered.filter _, fun other => ?_⟩, rfl⟩
    refine (get?_remove store key other).trans ?_
    change _ = (contents.erase key).lookup other
    split
    · rename_i same
      rw [same, Finmap.lookup_erase]
    · rename_i apart
      rw [Finmap.lookup_erase_ne apart, holds.get?]
  | clear => exact ⟨holds_empty, rfl⟩
  | get key => exact ⟨holds, congrArg Answer.text (holds.get? key)⟩
  | count => exact ⟨holds, congrArg Answer.number holds.size_eq⟩
  | list start => exact ⟨holds, congrArg Answer.texts (holds.list_eq start)⟩

theorem answers_eq (holds : Holds store contents) (ops : List Op) :
    answers Store.perform store ops = answers Contents.perform contents ops := by
  induction ops generalizing store contents with
  | nil => rfl
  | cons op ops ih =>
    obtain ⟨next, same⟩ := holds.perform op
    rw [answers, answers, same, ih next]

theorem after (holds : Holds store contents) (ops : List Op) :
    ∃ contents', Holds (store.after ops) contents' := by
  induction ops generalizing store contents with
  | nil => exact ⟨contents, holds⟩
  | cons op ops ih => exact ih (holds.perform op).1

end Holds

/-- A store answers whatever is done to it, and in whatever order, as the finite map does: it lists
just the texts under all keys with a beginning, each once, in the order of the keys' bytes. The pass
that starts at the beginning and stops at the first key without it misses none of them. -/
theorem answers_as_a_finite_map (ops : List Op) :
    answers perform empty ops = answers Contents.perform ∅ ops ∧
      ∀ start, (empty.after ops).list start =
        ((empty.after ops).entries.filter fun entry =>
          start.toList <+: entry.1.toList).map Prod.snd := by
  refine ⟨holds_empty.answers_eq ops, fun start => ?_⟩
  obtain ⟨_, holds⟩ := holds_empty.after ops
  rw [holds.ordered.list_eq_filter]
  refine congrArg (List.map Prod.snd) (List.filter_congr fun entry _ => ?_)
  rw [Bool.eq_iff_iff, beginsWith_iff, decide_eq_true_iff]

/-- A key that is the beginning itself, one with more behind it, and two around them. -/
example : answers perform empty [.set "éa" "3", .set "f" "1", .set "é" "2", .set "z" "0", .list "é"] =
    [.done, .done, .done, .done, .texts ["2", "3"]] := by
  decide +kernel

end Tether.Store
