import Mathlib.Data.List.TakeWhile
import Mathlib.Logic.Function.Basic
import Tether.Identity
import Tether.Proofs.Bytes
import Tether.Proofs.Store

/-! To look for an identity and to save a new one are two things that are done to the store, and
another caller may come between them. So callers who look before anything is saved go on with keys
of their own, and the store keeps only those that were saved last. Everyone else finds an identity.
-/

namespace Tether

theorem Text.trim_of_no_blanks {text : String}
    (none : ∀ c ∈ text.toList, isBlank c = false) : trim text = text := by
  have whole {chars : List Char} (none : ∀ c ∈ chars, isBlank c = false) :
      chars.dropWhile isBlank = chars := by
    rw [List.dropWhile_eq_self_iff]
    intro _
    simp [none]
  have reversed : ∀ c ∈ text.toList.reverse, isBlank c = false :=
    fun c member => none c (List.mem_reverse.mp member)
  simp only [trim, whole none, whole reversed, List.reverse_reverse, String.ofList_toList]

namespace Identity

open Crypto (KeyPair PrivateKey SignatureScheme)

private theorem hexDigit_no_blank : ∀ n < 16, Text.isBlank (Bytes.hexDigit n) = false := by decide

theorem readKey_toHex (key : PrivateKey) : readKey key.toHex = .ok key := by
  have none : ∀ c ∈ key.toHex.toList, Text.isBlank c = false := by
    intro c member
    rw [PrivateKey.toHex, Bytes.toHex, String.toList_ofList, List.mem_flatMap] at member
    obtain ⟨byte, _, digit⟩ := member
    have small := byte.toNat_lt
    rcases List.mem_cons.mp digit with rfl | last
    · exact hexDigit_no_blank _ (by omega)
    · rw [List.mem_singleton.mp last]
      exact hexDigit_no_blank _ (by omega)
  have spelled := Bytes.ofHex_toHex key.bytes.val
  rw [readKey, Text.trim_of_no_blanks none, PrivateKey.toHex, spelled]
  change (PrivateKey.ofBytes key.bytes.val).mapError Corruption.notKey = .ok key
  rw [PrivateKey.ofBytes, dif_pos key.bytes.property]
  rfl

variable (scheme : SignatureScheme)

theorem load_save (key : PrivateKey) (store : Store) :
    load scheme (save store (.ofPrivate scheme key)) = .ok (some (.ofPrivate scheme key)) := by
  rw [load, save, Store.get?_set, if_pos rfl]
  change (readKey key.toHex).map _ = _
  rw [readKey_toHex]
  rfl

/-- How far a caller has come. -/
inductive Visit where
  /-- It has not looked yet. -/
  | looking
  /-- It found nothing, and saves keys of its own next. -/
  | saving
  | settled (outcome : Except Corruption KeyPair)

/-- How far a caller comes with the next thing that it does to the store. -/
def Visit.next (fresh : PrivateKey) (store : Store) : Visit → Visit × Store
  | .looking =>
    match load scheme store with
    | .error cause => (.settled (.error cause), store)
    | .ok (some keys) => (.settled (.ok keys), store)
    | .ok none => (.saving, store)
  | .saving =>
    let keys := KeyPair.ofPrivate scheme fresh
    (.settled (.ok keys), save store keys)
  | .settled outcome => (.settled outcome, store)

/-- A caller whom nobody interrupts loads the identity or creates one. -/
theorem Visit.next_next (fresh : PrivateKey) (store : Store) :
    let first := Visit.looking.next scheme fresh store
    first.1.next scheme fresh first.2 =
      match loadOrCreate scheme fresh store with
      | .ok (keys, last) => (.settled (.ok keys), last)
      | .error cause => (.settled (.error cause), store) := by
  cases found : load scheme store with
  | error cause => simp [next, loadOrCreate, found, bind, Except.bind]
  | ok identity =>
    cases identity with
    | none => simp [next, loadOrCreate, found, bind, Except.bind, pure, Except.pure]
    | some keys => simp [next, loadOrCreate, found, bind, Except.bind, pure, Except.pure]

/-- Callers of one store. -/
structure Gathering (κ : Type) where
  store : Store
  visit : κ → Visit

namespace Gathering

variable {κ : Type} [DecidableEq κ] (fresh : κ → PrivateKey)

def turn (gathering : Gathering κ) (caller : κ) : Gathering κ :=
  let (visit, store) := (gathering.visit caller).next scheme (fresh caller) gathering.store
  ⟨store, Function.update gathering.visit caller visit⟩

/-- What comes of a store when callers take turns. -/
def play (store : Store) (turns : List κ) : Gathering κ :=
  turns.foldl (turn scheme fresh) ⟨store, fun _ => .looking⟩

/-- The keys that a caller has with it. -/
def own (caller : κ) : KeyPair := .ofPrivate scheme (fresh caller)

/-- A caller has had two turns, so something is saved. -/
def Saved (turns : List κ) : Prop := ∃ caller, 2 ≤ turns.count caller

/-- The caller looks before anything is saved. -/
def Early (turns : List κ) (caller : κ) : Prop := ¬Saved (turns.takeWhile (· ≠ caller))

theorem saved_concat {turns : List κ} {next : κ} :
    Saved (turns ++ [next]) ↔ Saved turns ∨ next ∈ turns := by
  constructor
  · rintro ⟨caller, twice⟩
    rw [List.count_append, List.count_singleton] at twice
    by_cases same : next = caller
    · refine Or.inr (List.count_pos_iff.mp ?_)
      simp only [same, beq_self_eq_true, if_true] at twice ⊢
      omega
    · exact Or.inl ⟨caller, by simpa [same] using twice⟩
  · rintro (⟨caller, twice⟩ | again)
    · exact ⟨caller, le_trans twice ((List.sublist_append_left turns [next]).count_le caller)⟩
    · have once := List.count_pos_iff.mpr again
      refine ⟨next, ?_⟩
      rw [List.count_append, List.count_singleton_self]
      omega

theorem early_concat {turns : List κ} {caller : κ} (next : κ) (there : caller ∈ turns) :
    Early (turns ++ [next]) caller ↔ Early turns caller := by
  have same : (turns ++ [next]).takeWhile (· ≠ caller) = turns.takeWhile (· ≠ caller) := by
    induction turns with
    | nil => cases there
    | cons first turns ih =>
      by_cases here : first = caller
      · simp [here]
      · simpa [here] using ih ((List.mem_cons.mp there).resolve_left (Ne.symm here))
  rw [Early, Early, same]

theorem early_new {turns : List κ} {caller : κ} (absent : caller ∉ turns) :
    Early (turns ++ [caller]) caller ↔ ¬Saved turns := by
  have same : (turns ++ [caller]).takeWhile (· ≠ caller) = turns := by
    rw [List.takeWhile_append_of_pos]
    · simp
    · intro other member
      exact decide_eq_true fun clash => absent (clash ▸ member)
  rw [Early, same]

theorem saved_of_not_early {turns : List κ} {caller : κ} (late : ¬Early turns caller) :
    Saved turns := by
  obtain ⟨other, twice⟩ := not_not.mp late
  exact ⟨other, le_trans twice ((List.takeWhile_sublist _).count_le other)⟩

/-- How far a caller has come after some turns. Early callers keep to keys of their own; whoever
comes later has found those of an early one. -/
inductive Stands (turns : List κ) (caller : κ) : Visit → Prop where
  | away (absent : caller ∉ turns) : Stands turns caller .looking
  | before (early : Early turns caller) (once : turns.count caller = 1) :
      Stands turns caller .saving
  | after (early : Early turns caller) (twice : 2 ≤ turns.count caller) :
      Stands turns caller (.settled (.ok (own scheme fresh caller)))
  | found (there : caller ∈ turns) (late : ¬Early turns caller) {other : κ} (known : other ∈ turns)
      (early : Early turns other) : Stands turns caller (.settled (.ok (own scheme fresh other)))

/-- What is in the store after some turns: the keys of an early caller, once something is saved. -/
inductive Keeps (turns : List κ) (store : Store) : Prop where
  | nothing (unsaved : ¬Saved turns) (none : load scheme store = .ok none)
  | keys (saved : Saved turns) {saver : κ} (known : saver ∈ turns) (early : Early turns saver)
      (kept : load scheme store = .ok (some (own scheme fresh saver)))

variable {scheme fresh} {turns : List κ}

/-- A turn of another caller takes nobody further. -/
theorem Stands.concat {caller next : κ} {visit : Visit} (stands : Stands scheme fresh turns caller visit)
    (apart : caller ≠ next) : Stands scheme fresh (turns ++ [next]) caller visit := by
  have count : (turns ++ [next]).count caller = turns.count caller := by
    rw [List.count_append, List.count_singleton, if_neg, Nat.add_zero]
    simpa using Ne.symm apart
  cases stands with
  | away absent => exact .away (by simp [absent, apart])
  | before early once =>
    have there : caller ∈ turns := List.count_pos_iff.mp (by omega)
    exact .before ((early_concat next there).mpr early) (count.trans once)
  | after early twice =>
    have there : caller ∈ turns := List.count_pos_iff.mp (by omega)
    exact .after ((early_concat next there).mpr early) (count.symm ▸ twice)
  | found there late known early =>
    exact .found (List.mem_append_left _ there) (mt (early_concat next there).mp late)
      (List.mem_append_left _ known) ((early_concat next known).mpr early)

theorem Keeps.concat {store : Store} (keeps : Keeps scheme fresh turns store) (saved : Saved turns)
    (next : κ) : Keeps scheme fresh (turns ++ [next]) store := by
  cases keeps with
  | nothing unsaved => exact absurd saved unsaved
  | keys _ known early kept =>
    exact .keys (saved_concat.mpr (Or.inl saved)) (List.mem_append_left _ known)
      ((early_concat next known).mpr early) kept

/-- Where everyone stands, and what is in the store. -/
structure Standing (scheme : SignatureScheme) (fresh : κ → PrivateKey) (turns : List κ)
    (gathering : Gathering κ) : Prop where
  visit : ∀ caller, Stands scheme fresh turns caller (gathering.visit caller)
  store : Keeps scheme fresh turns gathering.store

variable {gathering : Gathering κ}

private theorem Standing.with (standing : Standing scheme fresh turns gathering) {next : κ}
    {visit : Visit} {store : Store} (stands : Stands scheme fresh (turns ++ [next]) next visit)
    (keeps : Keeps scheme fresh (turns ++ [next]) store) :
    Standing scheme fresh (turns ++ [next]) ⟨store, Function.update gathering.visit next visit⟩ := by
  refine ⟨fun caller => ?_, keeps⟩
  change Stands scheme fresh _ caller (Function.update gathering.visit next visit caller)
  by_cases same : caller = next
  · rw [same, Function.update_self]
    exact stands
  · rw [Function.update_of_ne same]
    exact (standing.visit caller).concat same

/-- Each turn leaves everyone where it should. -/
theorem Standing.turn (standing : Standing scheme fresh turns gathering) (next : κ) :
    Standing scheme fresh (turns ++ [next]) (gathering.turn scheme fresh next) := by
  have more : (turns ++ [next]).count next = turns.count next + 1 := by
    rw [List.count_append, List.count_singleton_self]
  have last : next ∈ turns ++ [next] := List.mem_append_right _ (List.mem_singleton_self next)
  generalize visits : gathering.visit next = visit
  have stands := visits ▸ standing.visit next
  unfold Gathering.turn
  rw [visits]
  cases stands with
  | away absent =>
    have unseen : turns.count next = 0 := List.count_eq_zero.mpr absent
    cases standing.store with
    | nothing unsaved none =>
      simp only [Visit.next, none]
      refine standing.with (.before ((early_new absent).mpr unsaved) (by omega)) ?_
      exact .nothing (fun saved => (saved_concat.mp saved).elim unsaved absent) none
    | keys saved known early kept =>
      simp only [Visit.next, kept]
      refine standing.with ?_ (standing.store.concat saved next)
      exact .found last (fun new => (early_new absent).mp new saved) (List.mem_append_left _ known)
        ((early_concat next known).mpr early)
  | before early once =>
    have there : next ∈ turns := List.count_pos_iff.mp (by omega)
    have still := (early_concat next there).mpr early
    refine standing.with (.after still (by omega)) ?_
    exact .keys (saved_concat.mpr (Or.inr there)) last still (load_save scheme _ _)
  | after early twice =>
    have there : next ∈ turns := List.count_pos_iff.mp (by omega)
    refine standing.with (.after ((early_concat next there).mpr early) (by omega)) ?_
    exact standing.store.concat ⟨next, twice⟩ next
  | found there late known early =>
    refine standing.with ?_ (standing.store.concat (saved_of_not_early late) next)
    exact .found last (mt (early_concat next there).mp late) (List.mem_append_left _ known)
      ((early_concat next known).mpr early)

/-- Everyone stands where it should after any turns. -/
theorem standing_play (scheme : SignatureScheme) (fresh : κ → PrivateKey) {store : Store}
    (new : store.get? storeKey = none) (turns : List κ) :
    Standing scheme fresh turns (play scheme fresh store turns) := by
  induction turns using List.reverseRecOn with
  | nil =>
    refine ⟨fun caller => .away List.not_mem_nil, .nothing ?_ ?_⟩
    · rintro ⟨caller, twice⟩
      exact absurd twice (by simp)
    · change load scheme store = .ok none
      simp only [load, new]
  | append_singleton turns next ih =>
    rw [play, List.foldl_append]
    exact ih.turn next

omit [DecidableEq κ] in
theorem own_inj {one other : κ} :
    own scheme fresh one = own scheme fresh other ↔ fresh one = fresh other :=
  ⟨congrArg KeyPair.privateKey, congrArg (KeyPair.ofPrivate scheme)⟩

/-- Everyone has had the turns that it needs: one to look, and one more to save if it was early. -/
def Whole (turns : List κ) : Prop :=
  ∀ caller, caller ∈ turns ∧ (Early turns caller → 2 ≤ turns.count caller)

/-- Whoever has had the turns that it needs is done, with the keys of an early caller, and with its
own if it was early itself. -/
theorem Standing.settled (standing : Standing scheme fresh turns gathering) (whole : Whole turns)
    (caller : κ) : Saved turns ∧ ∃ other, Early turns other ∧
      gathering.visit caller = .settled (.ok (own scheme fresh other)) ∧
      (Early turns caller → other = caller) := by
  obtain ⟨there, enough⟩ := whole caller
  have stands := standing.visit caller
  generalize gathering.visit caller = visit at stands ⊢
  cases stands with
  | away absent => exact absurd there absent
  | before early once => exact absurd (enough early) (by omega)
  | after early twice => exact ⟨⟨caller, twice⟩, caller, early, rfl, fun _ => rfl⟩
  | found _ late _ early =>
    exact ⟨saved_of_not_early late, _, early, rfl, fun early => absurd early late⟩

/-- Callers come to a store without an identity and take their turns in any order. In the end all of
them are done: those who looked before anything was saved have keys of their own, everyone else has
the keys of one of those, and so has the store. They agree on the identity, and on the one that is
kept, if and only if those who looked before anything was saved had the same keys with them; so two
callers with different keys agree if and only if one of them looked after the other had saved. -/
theorem first_runs_agree_iff [Nonempty κ] (scheme : SignatureScheme) (fresh : κ → PrivateKey)
    {store : Store} (new : store.get? storeKey = none) {turns : List κ} (whole : Whole turns) :
    let last := play scheme fresh store turns
    (∀ caller, ∃ other, Early turns other ∧
      last.visit caller = .settled (.ok (own scheme fresh other)) ∧
      (Early turns caller → other = caller)) ∧
    (∃ saver, Early turns saver ∧
      load scheme last.store = .ok (some (own scheme fresh saver))) ∧
    ((∃ keys, (∀ caller, last.visit caller = .settled (.ok keys)) ∧
        load scheme last.store = .ok (some keys)) ↔
      ∀ one other, Early turns one → Early turns other → fresh one = fresh other) := by
  intro last
  have standing : Standing scheme fresh turns last := standing_play scheme fresh new turns
  have settled (caller : κ) := (standing.settled whole caller).2
  have stored : ∃ saver, Early turns saver ∧
      load scheme last.store = .ok (some (own scheme fresh saver)) := by
    obtain ⟨someone⟩ := ‹Nonempty κ›
    cases standing.store with
    | nothing unsaved => exact absurd (standing.settled whole someone).1 unsaved
    | keys _ known early kept => exact ⟨_, early, kept⟩
  refine ⟨settled, stored, ?_⟩
  constructor
  · rintro ⟨keys, agree, _⟩ one other oneEarly otherEarly
    have kept {caller : κ} (early : Early turns caller) : own scheme fresh caller = keys := by
      obtain ⟨holder, _, has, self⟩ := settled caller
      rw [self early, agree caller] at has
      cases has
      rfl
    exact own_inj.mp ((kept oneEarly).trans (kept otherEarly).symm)
  · intro same
    obtain ⟨saver, early, kept⟩ := stored
    refine ⟨own scheme fresh saver, fun caller => ?_, kept⟩
    obtain ⟨other, otherEarly, has, _⟩ := settled caller
    rw [has, own_inj.mpr (same other saver otherEarly early)]

def sampleKey (second : Bool) : PrivateKey :=
  ⟨List.replicate 32 (if second then 2 else 1), List.length_replicate⟩

/-- The second caller looks after the first has saved. -/
theorem first_runs_agree_iff_in_turn :
    let last := play Crypto.ed25519 sampleKey .empty [false, false, true]
    ∃ keys, (∀ caller, last.visit caller = .settled (.ok keys)) ∧
      load Crypto.ed25519 last.store = .ok (some keys) := by
  have late : ¬Early [false, false, true] true := fun early => early ⟨false, by decide⟩
  have whole : Whole [false, false, true] := by
    intro caller
    cases caller with
    | true => exact ⟨by decide, fun early => absurd early late⟩
    | false => exact ⟨by decide, fun _ => by decide⟩
  have new : Store.empty.get? storeKey = none := rfl
  refine (first_runs_agree_iff Crypto.ed25519 sampleKey new whole).2.2.mpr ?_
  intro one other oneEarly otherEarly
  cases one with
  | true => exact absurd oneEarly late
  | false =>
    cases other with
    | true => exact absurd otherEarly late
    | false => rfl

/-- Both callers look before either has saved. Each is done with keys of its own, and those of the
first are lost. -/
theorem first_runs_disagree :
    let last := play Crypto.ed25519 sampleKey .empty [false, true, false, true]
    (∀ caller, last.visit caller = .settled (.ok (.ofPrivate Crypto.ed25519 (sampleKey caller)))) ∧
    last.store.get? storeKey = some (sampleKey true).toHex ∧
    ¬∃ keys, (∀ caller, last.visit caller = .settled (.ok keys)) ∧
      load Crypto.ed25519 last.store = .ok (some keys) := by
  intro last
  have settled (caller : Bool) :
      last.visit caller = .settled (.ok (.ofPrivate Crypto.ed25519 (sampleKey caller))) := by
    cases caller <;> rfl
  refine ⟨settled, ?_, ?_⟩
  · exact (Store.get?_set _ storeKey _ storeKey).trans (if_pos rfl)
  · rintro ⟨keys, agree, _⟩
    have first := (settled false).symm.trans (agree false)
    have second := (settled true).symm.trans (agree true)
    have same : sampleKey false = sampleKey true :=
      own_inj.mp (Except.ok.inj (Visit.settled.inj (first.trans second.symm)))
    exact absurd same (by decide)

end Gathering

end Identity

end Tether
