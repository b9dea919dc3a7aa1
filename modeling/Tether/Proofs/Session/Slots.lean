import Mathlib.Algebra.Ring.Nat
import Mathlib.Data.List.Nodup
import Tether.Proofs.Session.Registry

/-! The taken ids fit into four words, one bit for each value of a byte, and the search for a free
id is a walk of the cursor over these bits. Words that show a registry answer for it: they tell
which ids are taken and how many, and the walk finds the id that the registry hands out. -/

namespace Tether.Session

/-- The taken ids as bits, and the last id handed out. -/
structure Slots where
  words : Fin 4 → UInt64
  cursor : UInt8

namespace Slots

def empty : Slots := ⟨fun _ => 0, 0⟩

/-- The word that holds the bit of an id. -/
def place (id : RequestId) : Fin 4 :=
  ⟨id.toNat / 64, Nat.div_lt_of_lt_mul id.byte.toNat_lt⟩

/-- The bit of an id in its word. -/
def mask (id : RequestId) : UInt64 := 1 <<< UInt64.ofNat (id.toNat % 64)

def isSet (slots : Slots) (id : RequestId) : Bool := slots.words (place id) &&& mask id ≠ 0

def set (slots : Slots) (id : RequestId) : Slots :=
  { slots with words := Function.update slots.words (place id) (slots.words (place id) ||| mask id) }

def clear (slots : Slots) (id : RequestId) : Slots :=
  { slots with
    words := Function.update slots.words (place id) (slots.words (place id) &&& ~~~mask id) }

def count (slots : Slots) : Nat :=
  ((List.finRange 4).map fun place => (slots.words place).toBitVec.cpop.toNat).sum

/-- Move the cursor on to a bit that is not set and set it. Zero is passed over, and so is every bit
that is set. After so many steps the search is given up. -/
def walk : Nat → Slots → Option RequestId × Slots
  | 0, slots => (none, slots)
  | steps + 1, slots =>
    let moved := { slots with cursor := slots.cursor + 1 }
    if moved.cursor = 0 then walk steps moved
    else if moved.isSet ⟨moved.cursor⟩ then walk steps moved
    else (some ⟨moved.cursor⟩, moved.set ⟨moved.cursor⟩)

/-- Take a free id, with one turn of the circle to find it. -/
def allocate (slots : Slots) : Option RequestId × Slots := slots.walk 256

theorem toBitVec_mask (id : RequestId) : (mask id).toBitVec = .twoPow 64 (id.toNat % 64) := by
  have small : id.toNat % 64 < 64 := Nat.mod_lt _ (by decide)
  rw [mask, UInt64.toBitVec_shiftLeft, BitVec.twoPow]
  apply BitVec.eq_of_toNat_eq
  simp [Nat.mod_eq_of_lt small]

theorem isSet_eq (slots : Slots) (id : RequestId) :
    slots.isSet id = (slots.words (place id)).toBitVec.getLsbD (id.toNat % 64) := by
  have small : id.toNat % 64 < 64 := Nat.mod_lt _ (by decide)
  have nonzero : BitVec.twoPow 64 (id.toNat % 64) ≠ 0#64 := by
    intro zero
    have bit := congrArg (fun bits => bits.getLsbD (id.toNat % 64)) zero
    simp [small] at bit
  have masked : slots.words (place id) &&& mask id = 0 ↔
      (slots.words (place id)).toBitVec &&& .twoPow 64 (id.toNat % 64) = 0#64 := by
    rw [← UInt64.toBitVec_inj, UInt64.toBitVec_and, toBitVec_mask]
    rfl
  rw [BitVec.and_twoPow] at masked
  unfold isSet
  cases bit : (slots.words (place id)).toBitVec.getLsbD (id.toNat % 64) <;>
    simp [masked, bit, nonzero]

theorem bit_eq_iff {id other : RequestId} (word : place other = place id) :
    other.toNat % 64 = id.toNat % 64 ↔ other = id := by
  constructor
  · intro bit
    have words := congrArg Fin.val word
    have bytes : other.byte = id.byte := by
      apply UInt8.toNat_inj.mp
      simp only [place, RequestId.toNat] at words bit
      omega
    exact RequestId.byte_inj.mp bytes
  · rintro rfl
    rfl

theorem isSet_set (slots : Slots) (id other : RequestId) :
    (slots.set id).isSet other = (decide (other = id) || slots.isSet other) := by
  have small : other.toNat % 64 < 64 := Nat.mod_lt _ (by decide)
  rw [isSet_eq, isSet_eq]
  by_cases word : place other = place id
  · simp [set, word, toBitVec_mask, small, ← bit_eq_iff word, eq_comm, Bool.or_comm]
  · have apart : other ≠ id := fun same => word (same ▸ rfl)
    simp [set, word, apart]

theorem isSet_clear (slots : Slots) (id other : RequestId) :
    (slots.clear id).isSet other = (decide (other ≠ id) && slots.isSet other) := by
  have small : other.toNat % 64 < 64 := Nat.mod_lt _ (by decide)
  rw [isSet_eq, isSet_eq]
  by_cases word : place other = place id
  · simp [clear, word, toBitVec_mask, small, ← bit_eq_iff word, eq_comm, Bool.and_comm]
  · have apart : other ≠ id := fun same => word (same ▸ rfl)
    simp [clear, word, apart]

theorem isSet_clearAll (slots : Slots) (ids : List RequestId) (other : RequestId) :
    (ids.foldl clear slots).isSet other = (decide (other ∉ ids) && slots.isSet other) := by
  induction ids generalizing slots with
  | nil => simp
  | cons id ids ih =>
    rw [List.foldl_cons, ih, isSet_clear]
    by_cases same : other = id <;> simp [same]

theorem cursor_clearAll (slots : Slots) (ids : List RequestId) :
    (ids.foldl clear slots).cursor = slots.cursor := by
  induction ids generalizing slots with
  | nil => rfl
  | cons id ids ih => rw [List.foldl_cons, ih, clear]

theorem cpopNatRec_eq_countP {width : Nat} (bits : BitVec width) (bound : Nat) :
    bits.cpopNatRec bound 0 = (List.range bound).countP fun place => bits.getLsbD place := by
  induction bound with
  | zero => rfl
  | succ bound ih =>
    rw [BitVec.cpopNatRec_succ, BitVec.cpopNatRec_add, ih, List.range_succ, List.countP_append]
    cases bit : bits.getLsbD bound <;> simp [bit]

/-- The bits of all words are those of all bytes. -/
theorem count_eq_countP (slots : Slots) :
    slots.count = (List.range 256).countP fun byte => slots.isSet ⟨UInt8.ofNat byte⟩ := by
  have words : List.range 256 = (List.finRange 4).flatMap fun place =>
      (List.range 64).map fun bit => 64 * place.val + bit := by decide +kernel
  rw [words, List.countP_flatMap, count]
  congr 1
  apply List.map_congr_left
  intro word _
  rw [BitVec.toNat_cpop, cpopNatRec_eq_countP, Function.comp_apply, List.countP_map]
  apply List.countP_congr
  intro bit small
  have bound := List.mem_range.mp small
  have within := word.isLt
  have number : (⟨UInt8.ofNat (64 * word.val + bit)⟩ : RequestId).toNat = 64 * word.val + bit := by
    rw [RequestId.toNat, UInt8.toNat_ofNat']
    omega
  have spot : place ⟨UInt8.ofNat (64 * word.val + bit)⟩ = word := by
    apply Fin.ext
    simp only [place, number]
    omega
  rw [Function.comp_apply, isSet_eq, spot, number, Nat.mul_add_mod, Nat.mod_eq_of_lt bound]

variable {κ : Type}

/-- The bits are those of the ids that are taken, and the cursor stands where the registry has it. -/
structure Shows (slots : Slots) (registry : Registry κ) : Prop where
  cursor : slots.cursor = registry.cursor
  isSet : ∀ id, slots.isSet id = decide (id ∈ registry.inUse)

theorem shows_empty : empty.Shows (.empty : Registry κ) where
  cursor := rfl
  isSet id := by
    rw [isSet_eq]
    simp [empty, Registry.empty]

theorem Shows.count {slots : Slots} {registry : Registry κ} (agree : slots.Shows registry) :
    slots.count = registry.inUse.size := by
  have distinct : ((List.range 256).map fun byte => (⟨UInt8.ofNat byte⟩ : RequestId)).Nodup := by
    refine List.nodup_range.map_on ?_
    intro one small other bound same
    have bytes := congrArg (fun id => id.byte.toNat) same
    simp only [UInt8.toNat_ofNat'] at bytes
    rw [List.mem_range] at small bound
    omega
  have whole (id : RequestId) :
      id ∈ (List.range 256).map fun byte => (⟨UInt8.ofNat byte⟩ : RequestId) :=
    List.mem_map.mpr ⟨id.byte.toNat, List.mem_range.mpr id.byte.toNat_lt, by
      rw [UInt8.ofNat_toNat]⟩
  have same : (((List.range 256).map fun byte => (⟨UInt8.ofNat byte⟩ : RequestId)).filter
      fun id => slots.isSet id).Perm registry.inUse.ids := by
    apply (List.perm_ext_iff_of_nodup (distinct.filter _) registry.inUse.nodup).mpr
    intro id
    rw [List.mem_filter, agree.isSet, decide_eq_true_iff]
    exact and_iff_right (whole id)
  rw [count_eq_countP, IdSet.size, ← same.length_eq, ← List.countP_eq_length_filter,
    List.countP_map]
  rfl

/-- The walk passes over what the search for a free id passes over. If it is given up, only the
cursor has moved. -/
theorem walk_eq {slots : Slots} {inUse : IdSet}
    (bits : ∀ id, slots.isSet id = decide (id ∈ inUse)) (steps : Nat) :
    slots.walk steps =
      match Registry.nextFree inUse slots.cursor steps with
      | some id => (some id, { slots with cursor := id.byte }.set id)
      | none => (none, { slots with cursor := slots.cursor + UInt8.ofNat steps }) := by
  induction steps generalizing slots with
  | zero => simp [walk, Registry.nextFree]
  | succ steps ih =>
    have onward := @ih { slots with cursor := slots.cursor + 1 } bits
    have around : slots.cursor + 1 + UInt8.ofNat steps = slots.cursor + UInt8.ofNat (steps + 1) := by
      rw [UInt8.ofNat_add, UInt8.add_assoc, UInt8.add_comm 1]
      rfl
    rw [around] at onward
    simp only [walk, Registry.nextFree]
    by_cases zero : slots.cursor + 1 = 0
    · rw [if_pos zero, if_neg (by simp [zero, RequestId.none]), onward]
    · have proper : (⟨slots.cursor + 1⟩ : RequestId) ≠ .none := fun same =>
        zero (congrArg RequestId.byte same)
      have bit : { slots with cursor := slots.cursor + 1 }.isSet ⟨slots.cursor + 1⟩ =
          decide (⟨slots.cursor + 1⟩ ∈ inUse) := bits _
      rw [if_neg zero, bit]
      by_cases taken : (⟨slots.cursor + 1⟩ : RequestId) ∈ inUse
      · rw [if_pos (decide_eq_true taken), if_neg (fun free => free.2 taken), onward]
      · rw [if_neg (fun set => taken (of_decide_eq_true set)), if_pos ⟨proper, taken⟩]

/-- The walk finds the id that the registry hands out, and shows the registry after it. Without one
it ends where it began. -/
theorem Shows.allocate {slots : Slots} {registry : Registry κ} (agree : slots.Shows registry) :
    match registry.allocate with
    | .ok (id, taken) => slots.allocate.1 = some id ∧ slots.allocate.2.Shows taken
    | .error _ => slots.allocate = (none, slots) := by
  have walks := walk_eq agree.isSet 256
  rw [agree.cursor] at walks
  unfold Registry.allocate Slots.allocate
  cases found : Registry.nextFree registry.inUse registry.cursor 256 with
  | none =>
    rw [found] at walks
    simp only at walks ⊢
    have around : registry.cursor + UInt8.ofNat 256 = slots.cursor := by
      rw [agree.cursor]
      exact UInt8.add_zero _
    rw [walks, around]
  | some id =>
    rw [found] at walks
    simp only at walks ⊢
    rw [walks]
    refine ⟨rfl, rfl, fun other => ?_⟩
    have before : { slots with cursor := id.byte }.isSet other = decide (other ∈ registry.inUse) :=
      agree.isSet other
    rw [isSet_set, before, ← Bool.decide_or]
    exact decide_eq_decide.mpr IdSet.mem_insert.symm

end Slots

end Tether.Session
