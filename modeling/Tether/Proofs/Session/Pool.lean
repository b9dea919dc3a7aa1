import Mathlib.Data.List.Perm.Subperm
import Tether.Proofs.Session.Teardown

namespace Tether.Session

open Message (ClientMessage)
open Time (Instant Timestamp)

variable {κ σ : Type}

/-- The ids that a request can have. -/
def properIds : List RequestId := (List.range 255).map fun number => ⟨UInt8.ofNat (number + 1)⟩

theorem mem_properIds {id : RequestId} : id ∈ properIds ↔ id ≠ .none := by
  rw [properIds, List.mem_map]
  constructor
  · rintro ⟨number, small, rfl⟩ zero
    have bytes := congrArg (fun id => id.byte.toNat) zero
    have bound := List.mem_range.mp small
    simp only [UInt8.toNat_ofNat', RequestId.none, UInt8.toNat_ofNat] at bytes
    omega
  · intro proper
    have positive : id.byte.toNat ≠ 0 := fun zero =>
      proper (RequestId.byte_inj.mp (UInt8.toNat_inj.mp zero))
    have bound := id.byte.toNat_lt
    refine ⟨id.byte.toNat - 1, List.mem_range.mpr (by omega), ?_⟩
    rw [Nat.sub_add_cancel (Nat.pos_of_ne_zero positive), UInt8.ofNat_toNat]

theorem nodup_properIds : properIds.Nodup := by
  refine List.nodup_range.map_on ?_
  intro one small other bound same
  have bytes := congrArg (fun id => id.byte.toNat) same
  simp only [UInt8.toNat_ofNat'] at bytes
  rw [List.mem_range] at small bound
  omega

theorem length_eq_iff_of_nodup {ids : List RequestId} (distinct : ids.Nodup)
    (proper : .none ∉ ids) : ids.length = 255 ↔ ∀ id, id ≠ .none → id ∈ ids := by
  have all : properIds.length = 255 := by simp [properIds]
  have within : ids.Subperm properIds :=
    List.subperm_of_subset distinct fun id member =>
      mem_properIds.mpr fun zero => proper (zero ▸ member)
  constructor
  · intro full id real
    have same := within.perm_of_length_le (by rw [all, full])
    exact same.mem_iff.mpr (mem_properIds.mpr real)
  · intro whole
    have less := within.length_le
    have more := (List.subperm_of_subset nodup_properIds fun id member =>
      whole id (mem_properIds.mp member)).length_le
    omega

namespace Core

/-- Whoever has an id is not turned away for want of one. -/
theorem submit_exhausted_iff (terms : Terms σ) {core : Core κ} (runs : core.closed = false)
    (now : Instant) (message : ClientMessage) (caller : κ) :
    (core.submit terms.signing terms.settings now message caller).1 =
        .error (.session .idsExhausted) ↔
      ∀ id, id ≠ .none → id ∈ core.registry.inUse := by
  unfold submit
  rw [runs]
  cases allocated : core.registry.allocate with
  | error cause =>
    obtain ⟨rfl, whole⟩ := Registry.allocate_eq_error.mp allocated
    exact iff_of_true rfl whole
  | ok pair =>
    obtain ⟨id, registry⟩ := pair
    have free : ¬∀ id, id ≠ .none → id ∈ core.registry.inUse := by
      intro whole
      rw [Registry.allocate_eq_error.mpr ⟨rfl, whole⟩] at allocated
      cases allocated
    refine iff_of_false ?_ free
    intro exhausted
    cases limit : terms.settings.deadline? now with
    | none => simp [limit] at exhausted
    | some deadline =>
      cases enlisted : enlist terms.signing ⟨registry, core.outbox, false⟩ id deadline message
          caller with
      | ok next => simp [limit, enlisted] at exhausted
      | error cause =>
        have same : cause = .session .idsExhausted := by simpa [limit, enlisted] using exhausted
        rcases enlist_eq_error enlisted with ⟨_, other⟩ | other | other | other <;>
          rw [same] at other <;> cases other

variable {core : Core κ}

/-- If no id is lost, those are taken under which a request waits. -/
theorem Orderly.taken_iff (orderly : core.Orderly) :
    (∀ id, id ∈ core.registry.inUse ↔ id ∈ core.registry.pending.map Pending.id) ↔
      ∀ id, ¬core.Lost id := by
  constructor
  · rintro same id ⟨taken, absent⟩
    exact absent ((same id).mp taken)
  · intro none id
    constructor
    · intro taken
      exact Decidable.not_not.mp fun absent => none id ⟨taken, absent⟩
    · intro waits
      obtain ⟨request, member, rfl⟩ := List.mem_map.mp waits
      exact orderly.registry.taken request member

/-- If no id is lost, none is left exactly when 255 requests wait. -/
theorem Orderly.exhausted_iff (orderly : core.Orderly) (none : ∀ id, ¬core.Lost id) :
    (∀ id, id ≠ .none → id ∈ core.registry.inUse) ↔ core.registry.pending.length = 255 := by
  have taken := orderly.taken_iff.mpr none
  have proper : RequestId.none ∉ core.registry.pending.map Pending.id := fun member =>
    orderly.registry.proper ((taken _).mpr member)
  have count := length_eq_iff_of_nodup orderly.registry.distinct proper
  rw [List.length_map] at count
  rw [count]
  simp only [taken]

end Core

/-- Zero is no id of a request and is never taken. Whatever is posted to new books, the ids that are
taken are those under which requests wait if and only if no submission breaks off, and none does as
long as the clock can show the deadlines. Then a caller of an open session is turned away for want
of an id if and only if 255 requests wait. All that a session does to its books is to post to
them. -/
theorem Core.taken_ids_belong_to_requests [DecidableEq κ] (terms : Terms σ) (capacity : Nat)
    (postings : List (Posting κ)) :
    let new : Core κ := empty capacity
    let core := new.posted terms postings
    (.none ∉ core.registry.inUse ∧ .none ∉ core.registry.pending.map Pending.id) ∧
    ((∀ id, id ∈ core.registry.inUse ↔ id ∈ core.registry.pending.map Pending.id) ↔
      new.Unbroken terms postings) ∧
    ((∀ posting ∈ postings, terms.settings.deadline? posting.now ≠ none) →
      new.Unbroken terms postings) ∧
    (new.Unbroken terms postings → core.closed = false → ∀ now message caller,
      (core.submit terms.signing terms.settings now message caller).1 =
          .error (.session .idsExhausted) ↔
        core.registry.pending.length = 255) ∧
    ∀ now time rest turns,
      let course : Course κ σ := .start terms now time rest
      let first : Core κ := empty terms.settings.maxQueuedMessages.toNat
      (course.play terms turns).core = first.posted terms (course.postings terms turns) ∧
        (first.Unbroken terms (course.postings terms turns) ↔ course.Unbroken terms turns) := by
  intro new core
  have fresh : new.Orderly := orderly_empty capacity
  have orderly : core.Orderly := fresh.posted terms postings
  have unlost : ∀ id, ¬new.Lost id := fun id lost => IdSet.not_mem_empty id lost.1
  have kept : (∀ id, ¬core.Lost id) ↔ new.Unbroken terms postings :=
    (fresh.none_lost_posted terms postings).trans (and_iff_right unlost)
  refine ⟨⟨orderly.registry.proper, ?_⟩, orderly.taken_iff.trans kept,
    fun shown => unbroken_of_deadlines terms shown new, ?_, ?_⟩
  · intro waits
    obtain ⟨request, member, zero⟩ := List.mem_map.mp waits
    exact orderly.registry.id_ne_none member zero
  · intro unbroken runs now message caller
    rw [submit_exhausted_iff terms runs]
    exact orderly.exhausted_iff (kept.mpr unbroken)
  · intro now time rest turns course first
    exact ⟨course.core_play terms turns, course.unbroken_postings terms turns⟩

/-- Two callers wait, so a third is not turned away for want of an id. -/
theorem Core.taken_ids_belong_to_requests_pinged :
    let postings : List (Posting Nat) := [⟨⟨0⟩, ⟨0⟩, .submit .ping 7⟩, ⟨⟨5⟩, ⟨5⟩, .submit .ping 8⟩]
    let core := (empty 256).posted Terms.plain postings
    core.registry.pending.map Pending.id = [⟨1⟩, ⟨2⟩] ∧
      (core.submit Terms.plain.signing Terms.plain.settings ⟨9⟩ .ping 9).1 ≠
        .error (.session .idsExhausted) := by
  intro postings core
  have ids : core.registry.pending.map Pending.id = [⟨1⟩, ⟨2⟩] := by decide
  have runs : core.closed = false := by decide
  have dated : ∀ posting ∈ postings, Terms.plain.settings.deadline? posting.now ≠ none := by decide
  obtain ⟨_, _, unbroken, exhausted, _⟩ := taken_ids_belong_to_requests Terms.plain 256 postings
  refine ⟨ids, ?_⟩
  rw [Ne, exhausted (unbroken dated) runs]
  decide

theorem IdSet.size_insert {set : IdSet} {id : RequestId} (absent : id ∉ set) :
    (set.insert id).size = set.size + 1 := by
  have absent : id ∉ set.ids := absent
  simp [size, insert, absent]

namespace Course

variable [DecidableEq κ] (terms : Terms σ) {now : Instant}
  (never : terms.settings.deadline? now = none) (time : Timestamp) (rest : σ)
  (message : ClientMessage) (caller : κ)

include never

theorem inUse_of_no_deadline {count : Nat} (bound : count ≤ 255) :
    let course := (start terms now time rest).play terms
      (List.replicate count (Turn.submit message caller))
    course.now = now ∧ course.core.closed = false ∧ course.core.registry.pending = [] ∧
      course.core.registry.inUse.size = count := by
  induction count with
  | zero => exact ⟨rfl, rfl, rfl, rfl⟩
  | succ count ih =>
    have orderly := orderly_play terms now time rest
      (List.replicate count (Turn.submit message caller))
    have same := ih (Nat.le_of_succ_le bound)
    rw [List.replicate_succ', play_concat]
    -- From here on the course is only what is known of it, or it would be computed.
    generalize (start terms now time rest).play terms
      (List.replicate count (Turn.submit message caller)) = course at orderly same
    obtain ⟨since, runs, idle, size⟩ := same
    have calls : (course.turn terms (.submit message caller)).core =
        (course.core.submit terms.signing terms.settings course.now message caller).2 := rfl
    refine ⟨since, ?_⟩
    rw [calls, since]
    cases allocated : course.core.registry.allocate with
    | error cause =>
      have whole := (length_eq_iff_of_nodup course.core.registry.inUse.nodup
        orderly.registry.proper).mpr (Registry.allocate_eq_error.mp allocated).2
      change course.core.registry.inUse.size = 255 at whole
      omega
    | ok pair =>
      obtain ⟨id, taken⟩ := pair
      have fresh := (Registry.allocate_fresh allocated).2
      have broken : course.core.submit terms.signing terms.settings now message caller =
          (.error .deadline, { course.core with registry := taken }) := by
        simp [Core.submit, runs, allocated, never]
      obtain ⟨_, rfl⟩ := Registry.allocate_eq_ok allocated
      rw [broken]
      exact ⟨runs, idle, (IdSet.size_insert fresh).trans (congrArg (· + 1) size)⟩

/-- After 255 of them nobody waits, and whoever calls is turned away. -/
theorem exhausted_of_no_deadline :
    let course := (start terms now time rest).play terms
      (List.replicate 255 (Turn.submit message caller))
    course.core.registry.pending = [] ∧ course.core.closed = false ∧
      (course.core.submit terms.signing terms.settings course.now message caller).1 =
        .error (.session .idsExhausted) := by
  have orderly := orderly_play terms now time rest
    (List.replicate 255 (Turn.submit message caller))
  have same := inUse_of_no_deadline terms never time rest message caller (Nat.le_refl 255)
  generalize (start terms now time rest).play terms
    (List.replicate 255 (Turn.submit message caller)) = course at orderly same
  obtain ⟨_, runs, idle, size⟩ := same
  refine ⟨idle, runs, (Core.submit_exhausted_iff terms runs _ _ _).mpr ?_⟩
  exact (length_eq_iff_of_nodup course.core.registry.inUse.nodup orderly.registry.proper).mp size

end Course

/-- The case of plain terms with the longest time-out that there is. -/
theorem Course.ids_exhausted_by_nobody :
    let course := (start Terms.endless ⟨0⟩ ⟨0⟩ ()).play Terms.endless
      (List.replicate 255 (Turn.submit .ping 7))
    course.core.registry.pending = [] ∧ course.core.closed = false ∧
      (course.core.submit Terms.endless.signing Terms.endless.settings course.now .ping 7).1 =
        .error (.session .idsExhausted) :=
  exhausted_of_no_deadline Terms.endless (by decide) ⟨0⟩ () .ping 7

end Tether.Session
