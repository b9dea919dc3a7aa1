import Tether.Proofs.Envelope.Layout
import Tether.Proofs.Session.Pool

/-! A submission takes an id, writes the frame, lets its caller wait and queues the frame, and each
of these can fail after the ones before it have changed the books. One that fails leaves the
requests, the taken ids and the outbox as they were. -/

namespace Tether.Session

open Message (ClientMessage Vocabulary)
open Time (Instant Timestamp)

variable {κ σ : Type}

namespace Registry

variable {registry taken : Registry κ} {id : RequestId}

theorem free_registered {next : Registry κ} {tag : UInt16} {deadline : Option Instant} {caller : κ}
    {frame : Bytes} (registered : registry.register id tag deadline caller frame = .ok next) :
    next.free id = registry.free id := by
  rw [register_eq_ok registered]
  simp only [free, List.filter_append]
  simp

theorem Orderly.register_taken (orderly : registry.Orderly)
    (allocated : registry.allocate = .ok (id, taken)) (tag : UInt16) (deadline : Option Instant)
    (caller : κ) (frame : Bytes) :
    taken.register id tag deadline caller frame = .ok { taken with
      pending := taken.pending ++ [⟨id, tag, deadline, caller, true, frame, none⟩] } := by
  obtain ⟨proper, fresh⟩ := allocate_fresh allocated
  obtain ⟨_, rfl⟩ := allocate_eq_ok allocated
  have member : id ∈ registry.inUse.insert id := IdSet.mem_insert.mpr (Or.inl rfl)
  have alone : registry.find? id = none := find?_eq_none.mpr (orderly.vacant fresh)
  unfold register
  rw [if_neg (not_or.mpr ⟨proper, not_not_intro member⟩), if_neg]
  change ¬(registry.find? id).isSome
  rw [alone]
  exact Bool.false_ne_true

end Registry

namespace Core

variable (signing : Signing)

/-- Let a caller wait and queue its frame, each step on what the step before has left. A step that
fails leaves what is there by then. -/
def enlistInPlace (core : Core κ) (id : RequestId) (deadline : Option Instant)
    (message : ClientMessage) (caller : κ) : Except CallError Unit × Core κ :=
  match Envelope.encode signing.scheme message id signing.keys with
  | .error cause => (.error (.frame cause), core)
  | .ok frame =>
    match core.registry.register id (Vocabulary.tag message) deadline caller frame with
    | .error cause => (.error (.session cause), core)
    | .ok registry =>
      match core.outbox.enqueue ⟨id, frame⟩ with
      | .error cause => (.error (.session cause), { core with registry })
      | .ok outbox => (.ok (), { core with registry, outbox })

/-- A submission on books that every step changes in place. If a step fails after an id was taken,
the id is released from what is there by then. -/
def submitInPlace (settings : Settings) (now : Instant) (core : Core κ) (message : ClientMessage)
    (caller : κ) : Except CallError Unit × Core κ :=
  if core.closed then (.error (.session .closed), core)
  else
    match core.registry.allocate with
    | .error cause => (.error (.session cause), core)
    | .ok (id, registry) =>
      match settings.deadline? now with
      | none => (.error .deadline, { core with registry })
      | some deadline =>
        match enlistInPlace signing { core with registry } id deadline message caller with
        | (.error cause, reached) =>
          (.error cause, { reached with registry := (reached.registry.release id).1 })
        | (.ok (), reached) => (.ok (), reached)

/-- In place the steps come to the same, and wherever they fail, releasing the id undoes them. -/
theorem enlistInPlace_cases (core : Core κ) (id : RequestId) (deadline : Option Instant)
    (message : ClientMessage) (caller : κ) :
    (∃ next, core.enlist signing id deadline message caller = .ok next ∧
        core.enlistInPlace signing id deadline message caller = (.ok (), next)) ∨
      ∃ cause reached, core.enlist signing id deadline message caller = .error cause ∧
        core.enlistInPlace signing id deadline message caller = (.error cause, reached) ∧
        { reached with registry := (reached.registry.release id).1 } =
          { core with registry := core.registry.free id } := by
  unfold enlist enlistInPlace
  cases Envelope.encode signing.scheme message id signing.keys with
  | error cause =>
    refine Or.inr ⟨_, core, rfl, rfl, ?_⟩
    rw [Registry.release_fst]
  | ok frame =>
    cases registered : core.registry.register id (Vocabulary.tag message) deadline caller frame with
    | error cause =>
      refine Or.inr ⟨.session cause, core, ?_, by simp only [registered], ?_⟩
      · simp only [bind, Except.bind, Except.mapError, registered]
      · rw [Registry.release_fst]
    | ok registry =>
      cases queued : core.outbox.enqueue ⟨id, frame⟩ with
      | error cause =>
        refine Or.inr ⟨.session cause, { core with registry }, ?_,
          by simp only [registered, queued], ?_⟩
        · simp only [bind, Except.bind, Except.mapError, registered, queued]
        · rw [Registry.release_fst, Registry.free_registered registered]
      | ok outbox =>
        refine Or.inl ⟨{ core with registry, outbox }, ?_, by simp only [registered, queued]⟩
        simp only [bind, Except.bind, Except.mapError, registered, queued]
        rfl

/-- It makes no difference whether a submission that fails drops what it has built or undoes what it
has done. -/
theorem submitInPlace_eq (settings : Settings) (now : Instant) (core : Core κ)
    (message : ClientMessage) (caller : κ) :
    core.submitInPlace signing settings now message caller =
      core.submit signing settings now message caller := by
  unfold submitInPlace submit
  split
  · rfl
  · cases core.registry.allocate with
    | error cause => rfl
    | ok pair =>
      obtain ⟨id, taken⟩ := pair
      cases settings.deadline? now with
      | none => rfl
      | some deadline =>
        rcases enlistInPlace_cases signing { core with registry := taken } id deadline message caller
          with ⟨next, enlisted, inPlace⟩ | ⟨cause, reached, failed, inPlace, undone⟩
        · simp only [enlisted, inPlace]
        · simp only [failed, inPlace, undone]

variable (terms : Terms σ)

/-- What a submission comes to, by the first thing that stands in its way. -/
def verdict (core : Core κ) (now : Instant) (message : ClientMessage) : Except CallError Unit :=
  let tag := Vocabulary.tag message
  if core.closed then .error (.session .closed)
  else if core.registry.inUse.size = 255 then .error (.session .idsExhausted)
  else if terms.settings.deadline? now = none then .error .deadline
  else if Vocabulary.isSigned ClientMessage tag ∧ terms.signing.keys = none then
    .error (.frame (.missingKeys tag))
  else if core.outbox.capacity ≤ core.outbox.size then .error (.session .queueFull)
  else .ok ()

theorem encode_cases (message : ClientMessage) (id : RequestId) :
    (Vocabulary.isSigned ClientMessage (Vocabulary.tag message) ∧ signing.keys = none ∧
        Envelope.encode signing.scheme message id signing.keys =
          .error (.missingKeys (Vocabulary.tag message))) ∨
      ¬(Vocabulary.isSigned ClientMessage (Vocabulary.tag message) ∧ signing.keys = none) ∧
        ∃ frame, Envelope.encode signing.scheme message id signing.keys = .ok frame := by
  cases signed : Vocabulary.isSigned ClientMessage (Vocabulary.tag message) with
  | false =>
    exact Or.inr ⟨by simp, _, Envelope.encode_plain ClientMessage.lawful signed id signing.keys⟩
  | true =>
    cases signing.keys with
    | none => exact Or.inl ⟨rfl, rfl, Envelope.encode_without_keys ClientMessage.lawful signed id⟩
    | some keys =>
      exact Or.inr ⟨by simp, _, Envelope.encode_signed ClientMessage.lawful signed id keys⟩

variable {core : Core κ}

theorem Orderly.allocate_of_size (orderly : core.Orderly)
    (spare : core.registry.inUse.size ≠ 255) :
    ∃ id taken, core.registry.allocate = .ok (id, taken) := by
  cases allocated : core.registry.allocate with
  | ok pair => exact ⟨pair.1, pair.2, rfl⟩
  | error cause =>
    have whole := (Registry.allocate_eq_error.mp allocated).2
    have full := length_eq_iff_of_nodup core.registry.inUse.nodup orderly.registry.proper
    exact absurd (full.mpr whole) spare

theorem Orderly.allocate_of_full (orderly : core.Orderly)
    (full : core.registry.inUse.size = 255) :
    core.registry.allocate = .error .idsExhausted := by
  have whole := length_eq_iff_of_nodup core.registry.inUse.nodup orderly.registry.proper
  exact Registry.allocate_eq_error.mpr ⟨rfl, whole.mp full⟩

theorem Orderly.enlist_taken (orderly : core.Orderly) {id : RequestId} {taken : Registry κ}
    (allocated : core.registry.allocate = .ok (id, taken)) (deadline : Option Instant)
    (message : ClientMessage) (caller : κ) {frame : Bytes}
    (encoded : Envelope.encode signing.scheme message id signing.keys = .ok frame) :
    enlist signing { core with registry := taken } id deadline message caller =
      if core.outbox.capacity ≤ core.outbox.size then .error (.session .queueFull)
      else .ok { core with
        registry := { taken with
          pending := taken.pending ++
            [⟨id, Vocabulary.tag message, deadline, caller, true, frame, none⟩] }
        outbox := { core.outbox with frames := core.outbox.frames ++ [⟨id, frame⟩] } } := by
  have registered := orderly.registry.register_taken allocated (Vocabulary.tag message) deadline
    caller frame
  unfold enlist
  simp only [bind, Except.bind, Except.mapError, encoded, registered, Outbox.enqueue]
  by_cases full : core.outbox.capacity ≤ core.outbox.size
  · simp only [full, ↓reduceIte]
  · simp only [full, ↓reduceIte]
    rfl

/-- What a submission comes to. -/
inductive Submitted (core : Core κ) (now : Instant) (message : ClientMessage) (caller : κ) :
    Except CallError Unit → Core κ → Prop
  /-- It fails, and at most the cursor has moved. -/
  | refused (cause : CallError) (cursor : UInt8) (real : cause ≠ .deadline) :
      Submitted core now message caller (.error cause)
        { core with registry := { core.registry with cursor } }
  /-- It does not return. -/
  | brokenOff (id : RequestId) (fresh : id ∉ core.registry.inUse)
      (never : terms.settings.deadline? now = none) :
      Submitted core now message caller (.error .deadline)
        { core with registry :=
          { core.registry with inUse := core.registry.inUse.insert id, cursor := id.byte } }
  /-- The caller waits under a new id at the end of the registry, and its frame waits at the end of
  the outbox. -/
  | admitted (id : RequestId) (deadline : Option Instant) (frame : Bytes) (proper : id ≠ .none)
      (fresh : id ∉ core.registry.inUse)
      (limit : terms.settings.deadline? now = some deadline)
      (encoded : Envelope.encode terms.signing.scheme message id terms.signing.keys = .ok frame) :
      Submitted core now message caller (.ok ()) { core with
        registry :=
          ⟨core.registry.inUse.insert id, id.byte, core.registry.pending ++
            [⟨id, Vocabulary.tag message, deadline, caller, true, frame, none⟩]⟩
        outbox := { core.outbox with frames := core.outbox.frames ++ [⟨id, frame⟩] } }

private theorem Orderly.submitted_taken (orderly : core.Orderly) (runs : core.closed = false)
    (spare : core.registry.inUse.size ≠ 255) {id : RequestId} {taken : Registry κ}
    (allocated : core.registry.allocate = .ok (id, taken)) {now : Instant}
    {deadline : Option Instant} (limit : terms.settings.deadline? now = some deadline)
    (message : ClientMessage) (caller : κ) :
    (core.submit terms.signing terms.settings now message caller).1 =
        core.verdict terms now message ∧
      core.Submitted terms now message caller (core.verdict terms now message)
        (core.submit terms.signing terms.settings now message caller).2 := by
  obtain ⟨proper, fresh⟩ := Registry.allocate_fresh allocated
  have undone := orderly.registry.free_taken allocated
  rcases encode_cases terms.signing message id with
    ⟨signed, keyless, failed⟩ | ⟨writable, frame, encoded⟩
  · have outcome : core.verdict terms now message =
        .error (.frame (.missingKeys (Vocabulary.tag message))) := by
      simp [verdict, runs, spare, limit, signed, keyless]
    have refused : enlist terms.signing ⟨taken, core.outbox, false⟩ id deadline message caller =
        .error (.frame (.missingKeys (Vocabulary.tag message))) := by
      unfold enlist
      simp only [bind, Except.bind, Except.mapError, failed]
    have comes : core.submit terms.signing terms.settings now message caller =
        (.error (.frame (.missingKeys (Vocabulary.tag message))),
          { core with registry := taken.free id }) := by
      simp [Core.submit, runs, allocated, limit, refused]
    rw [outcome, comes, undone]
    exact ⟨rfl, .refused _ id.byte (by simp)⟩
  · have enlisted := orderly.enlist_taken terms.signing allocated deadline message caller encoded
    rw [runs] at enlisted
    by_cases room : core.outbox.capacity ≤ core.outbox.size
    · have outcome : core.verdict terms now message = .error (.session .queueFull) := by
        simp [verdict, runs, spare, limit, writable, room]
      have comes : core.submit terms.signing terms.settings now message caller =
          (.error (.session .queueFull), { core with registry := taken.free id }) := by
        simp [Core.submit, runs, allocated, limit, enlisted, room]
      rw [outcome, comes, undone]
      exact ⟨rfl, .refused _ id.byte (by simp)⟩
    · have outcome : core.verdict terms now message = .ok () := by
        simp [verdict, runs, spare, limit, writable, room]
      obtain ⟨_, rfl⟩ := Registry.allocate_eq_ok allocated
      have comes : core.submit terms.signing terms.settings now message caller =
          (.ok (), { core with
            registry :=
              ⟨core.registry.inUse.insert id, id.byte, core.registry.pending ++
                [⟨id, Vocabulary.tag message, deadline, caller, true, frame, none⟩]⟩
            outbox := { core.outbox with frames := core.outbox.frames ++ [⟨id, frame⟩] } }) := by
        simp [Core.submit, runs, allocated, limit, enlisted, room]
      rw [outcome, comes]
      exact ⟨rfl, .admitted id deadline frame proper fresh limit encoded⟩

/-- A submission comes to the first thing that stands in its way, and leaves the books
accordingly. -/
theorem Orderly.submitted (orderly : core.Orderly) (now : Instant) (message : ClientMessage)
    (caller : κ) :
    (core.submit terms.signing terms.settings now message caller).1 =
        core.verdict terms now message ∧
      core.Submitted terms now message caller (core.verdict terms now message)
        (core.submit terms.signing terms.settings now message caller).2 := by
  cases runs : core.closed with
  | true =>
    have outcome : core.verdict terms now message = .error (.session .closed) := by
      simp [verdict, runs]
    rw [outcome, (submit_of_closed terms runs now message caller)]
    exact ⟨rfl, .refused _ core.registry.cursor (by simp)⟩
  | false =>
    by_cases full : core.registry.inUse.size = 255
    · have outcome : core.verdict terms now message = .error (.session .idsExhausted) := by
        simp [verdict, runs, full]
      have comes : core.submit terms.signing terms.settings now message caller =
          (.error (.session .idsExhausted), core) := by
        simp [Core.submit, runs, orderly.allocate_of_full full]
      rw [outcome, comes]
      exact ⟨rfl, .refused _ core.registry.cursor (by simp)⟩
    · obtain ⟨id, taken, allocated⟩ := orderly.allocate_of_size full
      cases limit : terms.settings.deadline? now with
      | some deadline =>
        exact orderly.submitted_taken terms runs full allocated limit message caller
      | none =>
        have outcome : core.verdict terms now message = .error .deadline := by
          simp [verdict, runs, full, limit]
        have comes : core.submit terms.signing terms.settings now message caller =
            (.error .deadline, { core with registry := taken }) := by
          simp [Core.submit, runs, allocated, limit]
        rw [outcome, comes, (Registry.allocate_eq_ok allocated).2]
        exact ⟨rfl, .brokenOff id (Registry.allocate_fresh allocated).2 limit⟩

end Core

/-- Whatever was posted to the books before: a submission comes to the first thing that stands in its
way, and it makes no difference whether its steps change the books in place and are undone. If it
fails, the requests and the outbox are as before, and so are the ids that are taken, unless it breaks
off because the clock cannot show its deadline. If it goes well, the caller waits behind the others
under a new id, not sent yet and with the deadline that the settings give it, and the frame of its
message with that id is kept there and waits at the end of the outbox; everything else is as
before. -/
theorem Core.submission_is_all_or_nothing [DecidableEq κ] (terms : Terms σ) (capacity : Nat)
    (postings : List (Posting κ)) (now : Instant) (message : ClientMessage) (caller : κ) :
    let core : Core κ := (empty capacity).posted terms postings
    let outcome := (core.submit terms.signing terms.settings now message caller).1
    let next := (core.submit terms.signing terms.settings now message caller).2
    outcome = core.verdict terms now message ∧
      core.submitInPlace terms.signing terms.settings now message caller = (outcome, next) ∧
      next.closed = core.closed ∧
      (∀ cause, outcome = .error cause →
        next.registry.pending = core.registry.pending ∧ next.outbox = core.outbox ∧
          (cause ≠ .deadline → next.registry.inUse = core.registry.inUse)) ∧
      (outcome = .ok () → ∃ id deadline frame,
        id ≠ .none ∧ id ∉ core.registry.inUse ∧
          (∀ other, other ∈ next.registry.inUse ↔ other = id ∨ other ∈ core.registry.inUse) ∧
          terms.settings.deadline? now = some deadline ∧
          Envelope.encode terms.signing.scheme message id terms.signing.keys = .ok frame ∧
          next.registry.pending = core.registry.pending ++
            [⟨id, Vocabulary.tag message, deadline, caller, true, frame, none⟩] ∧
          next.outbox = { core.outbox with frames := core.outbox.frames ++ [⟨id, frame⟩] }) := by
  intro core outcome next
  have orderly : core.Orderly := (orderly_empty capacity).posted terms postings
  obtain ⟨comes, books⟩ := orderly.submitted terms now message caller
  have inPlace := core.submitInPlace_eq terms.signing terms.settings now message caller
  change core.Submitted terms now message caller _ next at books
  rw [← comes] at books
  change core.Submitted terms now message caller outcome next at books
  refine ⟨comes, inPlace, ?_⟩
  generalize outcome = outcome at books
  generalize next = next at books
  cases books with
  | refused cause cursor real =>
    exact ⟨rfl, fun _ _ => ⟨rfl, rfl, fun _ => rfl⟩, fun succeeded => by cases succeeded⟩
  | brokenOff id fresh never =>
    refine ⟨rfl, ?_, fun succeeded => by cases succeeded⟩
    rintro cause failed
    exact ⟨rfl, rfl, fun other => absurd (Except.error.inj failed).symm other⟩
  | admitted id deadline frame proper fresh limit encoded =>
    refine ⟨rfl, ?_, fun _ => ?_⟩
    · rintro _ ⟨⟩
    · exact ⟨id, deadline, frame, proper, fresh, fun _ => IdSet.mem_insert, limit, encoded, rfl,
        rfl⟩

/-- A second caller finds the outbox full, and the id that it took is given back. -/
theorem Core.submission_is_all_or_nothing_full :
    let core : Core Nat := (empty 1).posted Terms.plain [⟨⟨0⟩, ⟨0⟩, .submit .ping 7⟩]
    let second := core.submit Terms.plain.signing Terms.plain.settings ⟨5⟩ .ping 8
    second.1 = .error (.session .queueFull) ∧
      second.2.registry.inUse = core.registry.inUse ∧ core.registry.inUse.ids = [⟨1⟩] := by
  intro core second
  have full : second.1 = .error (.session .queueFull) := by decide
  obtain ⟨_, _, _, refused, _⟩ := submission_is_all_or_nothing Terms.plain 1
    [⟨⟨0⟩, ⟨0⟩, .submit .ping 7⟩] ⟨5⟩ .ping (8 : Nat)
  exact ⟨full, (refused _ full).2.2 (by simp), by decide⟩

end Tether.Session
