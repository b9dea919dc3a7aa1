import Tether.Proofs.Identity

namespace Tether

/-- The operation leaves what is under the key alone. -/
def Store.Op.Spares (key : String) : Store.Op → Prop
  | .set other _ => other ≠ key
  | .remove other => other ≠ key
  | .clear => False
  | _ => True

theorem Store.Op.Spares.get?_perform {key : String} {op : Store.Op} (spares : op.Spares key)
    (store : Store) : (store.perform op).1.get? key = store.get? key := by
  cases op with
  | set other value => exact (store.get?_set other value key).trans (if_neg (Ne.symm spares))
  | remove other => exact (store.get?_remove other key).trans (if_neg (Ne.symm spares))
  | clear => exact spares.elim
  | get => rfl
  | count => rfl
  | list => rfl

namespace Identity

open Crypto (KeyPair PrivateKey SignatureScheme)

/-- Sixty-four hexadecimal digits. -/
def SpellsKey (text : String) : Prop :=
  text.toList.length = 64 ∧ ∀ c ∈ text.toList, Bytes.IsHexDigit c

theorem readKey_eq_ok_iff {text : String} {key : PrivateKey} :
    readKey text = .ok key ↔ Bytes.ofHex (Bytes.ofText (Text.trim text)) = .ok key.bytes.val := by
  rw [readKey]
  cases Bytes.ofHex (Bytes.ofText (Text.trim text)) with
  | error cause => constructor <;> intro read <;> cases read
  | ok bytes =>
    change (PrivateKey.ofBytes bytes).mapError Corruption.notKey = .ok key ↔ _
    rw [PrivateKey.ofBytes, Except.ok.injEq]
    split
    · constructor
      · intro read
        cases read
        rfl
      · rintro rfl
        rfl
    · rename_i wrongLength
      constructor
      · intro read
        cases read
      · rintro rfl
        exact absurd key.bytes.property wrongLength

/-- Just the texts are read as a private key that spell one, blanks at their ends aside. -/
theorem readKey_ok_iff {text : String} :
    (∃ key, readKey text = .ok key) ↔ SpellsKey (Text.trim text) := by
  simp only [readKey_eq_ok_iff]
  calc (∃ key : PrivateKey, Bytes.ofHex (Bytes.ofText (Text.trim text)) = .ok key.bytes.val)
    _ ↔ ∃ bytes : Bytes, bytes.length = 32 ∧
        Bytes.ofHex (Bytes.ofText (Text.trim text)) = .ok bytes := by
      constructor
      · rintro ⟨key, read⟩
        exact ⟨key.bytes.val, key.bytes.property, read⟩
      · rintro ⟨bytes, length, read⟩
        exact ⟨⟨⟨bytes, length⟩⟩, read⟩
    _ ↔ SpellsKey (Text.trim text) := Bytes.ofHex_ok_iff.trans Bytes.ofText_digits_iff

variable (scheme : SignatureScheme)

/-- A caller does all that it does to a store: what it comes to, and the store after it. -/
def attend (fresh : PrivateKey) (store : Store) : Visit × Store :=
  let first := Visit.looking.next scheme fresh store
  first.1.next scheme fresh first.2

variable {scheme} {fresh : PrivateKey} {store : Store}

theorem attend_of_ok {keys : KeyPair} {last : Store}
    (loaded : loadOrCreate scheme fresh store = .ok (keys, last)) :
    attend scheme fresh store = (.settled (.ok keys), last) := by
  refine (Visit.next_next scheme fresh store).trans ?_
  rw [loaded]

theorem attend_of_error {cause : Corruption}
    (refused : loadOrCreate scheme fresh store = .error cause) :
    attend scheme fresh store = (.settled (.error cause), store) := by
  refine (Visit.next_next scheme fresh store).trans ?_
  rw [refused]

/-- The store holds a text in the place of the identity that spells no private key. -/
def Corrupt (store : Store) : Prop :=
  ∃ text, store.get? storeKey = some text ∧ ¬SpellsKey (Text.trim text)

/-- The keys are those of the private key that is spelled in the place of the identity. -/
def Kept (scheme : SignatureScheme) (store : Store) (keys : KeyPair) : Prop :=
  keys = .ofPrivate scheme keys.privateKey ∧
    ∃ text, store.get? storeKey = some text ∧
      Bytes.ofHex (Bytes.ofText (Text.trim text)) = .ok keys.privateKey.bytes.val

theorem Kept.spells {keys : KeyPair} (kept : Kept scheme store keys) :
    ∃ text, store.get? storeKey = some text ∧ readKey text = .ok keys.privateKey := by
  obtain ⟨-, text, there, spelled⟩ := kept
  exact ⟨text, there, readKey_eq_ok_iff.mpr spelled⟩

theorem Kept.not_corrupt {keys : KeyPair} (kept : Kept scheme store keys) : ¬Corrupt store := by
  rintro ⟨other, there', nonsense⟩
  obtain ⟨text, there, read⟩ := kept.spells
  cases there.symm.trans there'
  exact nonsense (readKey_ok_iff.mp ⟨_, read⟩)

/-- The three ways that a call can go. -/
inductive Goes (scheme : SignatureScheme) (fresh : PrivateKey) (store : Store) :
    Except Corruption (KeyPair × Store) → Prop where
  | refused (corrupt : Corrupt store) (cause : Corruption) : Goes scheme fresh store (.error cause)
  | found {keys : KeyPair} (kept : Kept scheme store keys) : Goes scheme fresh store (.ok (keys, store))
  | created (new : store.get? storeKey = none) :
      Goes scheme fresh store
        (.ok (.ofPrivate scheme fresh, save store (.ofPrivate scheme fresh)))

theorem goes_loadOrCreate (scheme : SignatureScheme) (fresh : PrivateKey) (store : Store) :
    Goes scheme fresh store (loadOrCreate scheme fresh store) := by
  cases there : store.get? storeKey with
  | none =>
    have created : loadOrCreate scheme fresh store =
        .ok (.ofPrivate scheme fresh, save store (.ofPrivate scheme fresh)) := by
      simp only [loadOrCreate, load, there]
      rfl
    rw [created]
    exact .created there
  | some text =>
    cases read : readKey text with
    | error cause =>
      have refused : loadOrCreate scheme fresh store = .error cause := by
        simp only [loadOrCreate, load, there, read]
        rfl
      rw [refused]
      refine .refused ⟨text, there, fun spells => ?_⟩ cause
      obtain ⟨key, read'⟩ := readKey_ok_iff.mpr spells
      cases read.symm.trans read'
    | ok key =>
      have found : loadOrCreate scheme fresh store = .ok (.ofPrivate scheme key, store) := by
        simp only [loadOrCreate, load, there, read]
        rfl
      rw [found]
      exact .found ⟨rfl, text, there, readKey_eq_ok_iff.mp read⟩

theorem corrupt_iff_refused :
    Corrupt store ↔ ∃ cause, loadOrCreate scheme fresh store = .error cause := by
  have outcome := goes_loadOrCreate scheme fresh store
  generalize loadOrCreate scheme fresh store = got at outcome ⊢
  cases outcome with
  | refused corrupt cause => exact iff_of_true corrupt ⟨cause, rfl⟩
  | found kept =>
    refine iff_of_false kept.not_corrupt ?_
    rintro ⟨cause, clash⟩
    cases clash
  | created new =>
    constructor
    · rintro ⟨text, there, -⟩
      cases new.symm.trans there
    · rintro ⟨cause, clash⟩
      cases clash

theorem kept_save (scheme : SignatureScheme) (store : Store) (fresh : PrivateKey) :
    Kept scheme (save store (.ofPrivate scheme fresh)) (.ofPrivate scheme fresh) := by
  refine ⟨rfl, fresh.toHex, (store.get?_set ..).trans (if_pos rfl), ?_⟩
  exact readKey_eq_ok_iff.mp (readKey_toHex fresh)

/-- Whoever gets keys leaves a store that keeps them, and has written only where nothing was. -/
theorem kept_of_loaded {keys : KeyPair} {last : Store}
    (loaded : loadOrCreate scheme fresh store = .ok (keys, last)) :
    Kept scheme last keys ∧
      if store.get? storeKey = none then
        keys.privateKey = fresh ∧ ∀ other, other ≠ storeKey → last.get? other = store.get? other
      else last = store := by
  have outcome := loaded ▸ goes_loadOrCreate scheme fresh store
  cases outcome with
  | found kept =>
    obtain ⟨text, there, -⟩ := kept.spells
    rw [if_neg (by rw [there]; exact Option.some_ne_none text)]
    exact ⟨kept, rfl⟩
  | created new =>
    rw [if_pos new]
    refine ⟨kept_save scheme store fresh, rfl, fun other apart => ?_⟩
    exact (store.get?_set ..).trans (if_neg apart)

/-- Whoever comes to a store with an identity gets it, and leaves the store as it is. -/
theorem Kept.loadOrCreate {keys : KeyPair} (kept : Kept scheme store keys) (fresh : PrivateKey) :
    loadOrCreate scheme fresh store = .ok (keys, store) := by
  obtain ⟨text, there, read⟩ := kept.spells
  have same : .ofPrivate scheme keys.privateKey = keys := kept.1.symm
  simp only [Identity.loadOrCreate, load, there, read]
  change Except.ok (KeyPair.ofPrivate scheme keys.privateKey, store) = _
  rw [same]

/-- What happens to a store: someone else does something to it, or another caller comes. -/
inductive Event where
  | other (op : Store.Op)
  | caller (fresh : PrivateKey)

/-- The event leaves the place of the identity to the callers. -/
def Event.Spares : Event → Prop
  | .other op => op.Spares storeKey
  | .caller _ => True

def Event.happen (scheme : SignatureScheme) (store : Store) : Event → Store
  | .other op => (store.perform op).1
  | .caller fresh => (attend scheme fresh store).2

theorem Kept.happen {keys : KeyPair} (kept : Kept scheme store keys) {event : Event}
    (spares : event.Spares) : Kept scheme (event.happen scheme store) keys := by
  cases event with
  | other op =>
    obtain ⟨pair, text, there, spelled⟩ := kept
    exact ⟨pair, text, (Store.Op.Spares.get?_perform spares store).trans there, spelled⟩
  | caller fresh =>
    change Kept scheme (attend scheme fresh store).2 keys
    rw [attend_of_ok (kept.loadOrCreate fresh)]
    exact kept

theorem Kept.events {keys : KeyPair} (kept : Kept scheme store keys) {events : List Event}
    (spare : ∀ event ∈ events, event.Spares) :
    Kept scheme (events.foldl (Event.happen scheme) store) keys := by
  induction events generalizing store with
  | nil => exact kept
  | cons event events ih =>
    obtain ⟨first, rest⟩ := List.forall_mem_cons.mp spare
    exact ih (kept.happen first) rest

/-- A caller is refused just if the store holds a text in the place of the identity that is not
sixty-four hexadecimal digits between blanks, and then the store is as it was. Everyone else gets the
keys that are kept, or new ones if there are none, which are kept from then on; nothing else in the
store changes. Whatever is done to other keys of the store after that, and whoever comes, the next
caller gets the same keys and leaves the store as it finds it. -/
theorem identity_is_permanent (scheme : SignatureScheme) (fresh : PrivateKey) (store : Store) :
    (Corrupt store ↔ ∃ cause, loadOrCreate scheme fresh store = .error cause ∧
      attend scheme fresh store = (.settled (.error cause), store)) ∧
    (¬Corrupt store ↔ ∃ keys last, loadOrCreate scheme fresh store = .ok (keys, last) ∧
      attend scheme fresh store = (.settled (.ok keys), last)) ∧
    ∀ keys last, loadOrCreate scheme fresh store = .ok (keys, last) →
      Kept scheme last keys ∧
      (if store.get? storeKey = none then
        keys.privateKey = fresh ∧ ∀ other, other ≠ storeKey → last.get? other = store.get? other
      else last = store) ∧
      ∀ events : List Event, (∀ event ∈ events, event.Spares) → ∀ later,
        loadOrCreate scheme later (events.foldl (Event.happen scheme) last) =
          .ok (keys, events.foldl (Event.happen scheme) last) := by
  refine ⟨?_, ?_, fun keys last loaded => ?_⟩
  · rw [corrupt_iff_refused]
    exact exists_congr fun cause => ⟨fun refused => ⟨refused, attend_of_error refused⟩, And.left⟩
  · constructor
    · intro sound
      cases result : loadOrCreate scheme fresh store with
      | error cause => exact absurd (corrupt_iff_refused.mpr ⟨cause, result⟩) sound
      | ok loaded => exact ⟨loaded.1, loaded.2, rfl, attend_of_ok result⟩
    · rintro ⟨keys, last, loaded, -⟩ corrupt
      obtain ⟨cause, refused⟩ := corrupt_iff_refused.mp corrupt
      cases loaded.symm.trans refused
  · obtain ⟨kept, written⟩ := kept_of_loaded loaded
    exact ⟨kept, written, fun events spare later => (kept.events spare).loadOrCreate later⟩

/-- An identity in capitals, on a line of its own and indented. Its neighbour is changed and taken
out, and another caller comes. -/
theorem identity_is_permanent_padded :
    let store := (Store.empty.set "name" "Ada").set storeKey
      ("  " ++ String.ofList (List.replicate 64 'A') ++ "\n")
    let fresh : PrivateKey := ⟨List.replicate 32 1, rfl⟩
    let events : List Event :=
      [.other (.set "name" "Bob"), .caller fresh, .other (.remove "name"), .other .count]
    (∀ event ∈ events, event.Spares) ∧
      ∃ keys, loadOrCreate Crypto.ed25519 fresh store = .ok (keys, store) ∧
        loadOrCreate Crypto.ed25519 fresh (events.foldl (Event.happen Crypto.ed25519) store) =
          .ok (keys, events.foldl (Event.happen Crypto.ed25519) store) := by
  intro store fresh events
  have there : store.get? storeKey =
      some ("  " ++ String.ofList (List.replicate 64 'A') ++ "\n") := by decide
  have trimmed : Text.trim ("  " ++ String.ofList (List.replicate 64 'A') ++ "\n") =
      String.ofList (List.replicate 64 'A') := by decide
  have sound : ¬Corrupt store := by
    rintro ⟨text, there', nonsense⟩
    cases there.symm.trans there'
    rw [trimmed, SpellsKey, String.toList_ofList] at nonsense
    refine nonsense ⟨List.length_replicate, fun c member => ?_⟩
    rw [List.eq_of_mem_replicate member]
    decide
  have spare : ∀ event ∈ events, event.Spares := by
    simp [events, Event.Spares, Store.Op.Spares, storeKey]
  obtain ⟨-, goes, permanent⟩ := identity_is_permanent Crypto.ed25519 fresh store
  obtain ⟨keys, last, loaded, -⟩ := goes.mp sound
  obtain ⟨-, same, later⟩ := permanent keys last loaded
  rw [if_neg (by rw [there]; exact Option.some_ne_none _)] at same
  subst same
  exact ⟨spare, keys, loaded, later events spare fresh⟩

end Identity

end Tether
