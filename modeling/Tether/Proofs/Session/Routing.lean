import Tether.Proofs.Envelope
import Tether.Proofs.Session.Registry
import Tether.Session.Runner

namespace Tether.Session

open Message (ServerMessage)

variable {κ σ : Type}

/-- How a frame ends the request that it is for. -/
def Pending.verdict (request : Pending κ) : Except FrameError (Envelope ServerMessage) → Outcome
  | .error cause => .error (.decode cause)
  | .ok envelope =>
    match envelope.message with
    | .fault fault => .error (.server fault)
    | message => .reply ⟨message, request.sentAt⟩

namespace Core

/-- What everyone hears of a frame that names no request. -/
def heard : Except FrameError (Envelope ServerMessage) → Option ServerMessage
  | .error _ => none
  | .ok envelope => some envelope.message

variable (signing : Signing) (core : Core κ)

theorem dispatch_of_eq_none {frame : Bytes} (names : Envelope.requestIdOf frame = .none) :
    core.dispatch signing frame =
      ⟨core, [], heard (Envelope.decode signing.scheme ServerMessage frame)⟩ := by
  simp only [dispatch, names, ↓reduceIte]
  cases Envelope.decode signing.scheme ServerMessage frame <;> rfl

theorem dispatch_of_ne_none {frame : Bytes} (names : Envelope.requestIdOf frame ≠ .none) :
    core.dispatch signing frame =
      core.settled (core.registry.settle? (Envelope.requestIdOf frame) fun request =>
        request.verdict (Envelope.decode signing.scheme ServerMessage frame)) := by
  simp only [dispatch, names, ↓reduceIte]
  cases Envelope.decode signing.scheme ServerMessage frame with
  | error cause => rfl
  | ok envelope =>
    obtain ⟨tag, id, signer, message⟩ := envelope
    cases message <;> rfl

/-- A frame for a request that does not wait is dropped. -/
theorem dispatch_of_find?_eq_none {frame : Bytes} (names : Envelope.requestIdOf frame ≠ .none)
    (absent : core.registry.find? (Envelope.requestIdOf frame) = none) :
    core.dispatch signing frame = ⟨core, [], none⟩ := by
  rw [dispatch_of_ne_none signing core names]
  simp only [Registry.settle?, absent, Option.map_none, settled]

/-- A frame for a request that waits ends it. -/
theorem dispatch_of_find?_eq_some {frame : Bytes} (names : Envelope.requestIdOf frame ≠ .none)
    {request : Pending κ}
    (waits : core.registry.find? (Envelope.requestIdOf frame) = some request) :
    core.dispatch signing frame =
      ⟨{ core with registry := core.registry.free (Envelope.requestIdOf frame) },
        request.deliver
          (request.verdict (Envelope.decode signing.scheme ServerMessage frame)), none⟩ := by
  rw [dispatch_of_ne_none signing core names]
  simp only [Registry.settle?, waits, Option.map_some, settled]

end Core

namespace Pending

variable (request : Pending κ)

theorem verdict_of_fault {decoded : Except FrameError (Envelope ServerMessage)}
    {envelope : Envelope ServerMessage} {fault : Message.Fault} (reads : decoded = .ok envelope)
    (reports : envelope.message = .fault fault) :
    request.verdict decoded = .error (.server fault) := by
  rw [reads]
  simp only [verdict, reports]

theorem verdict_of_answer {decoded : Except FrameError (Envelope ServerMessage)}
    {envelope : Envelope ServerMessage} (reads : decoded = .ok envelope)
    (answers : ∀ fault, envelope.message ≠ .fault fault) :
    request.verdict decoded = .reply ⟨envelope.message, request.sentAt⟩ := by
  rw [reads]
  cases read : envelope.message with
  | fault fault => exact absurd read (answers fault)
  | status status => simp only [verdict, read]
  | decay decay => simp only [verdict, read]

end Pending

namespace Runner

variable (outside : Surroundings σ) (runner : Runner κ σ) (frame : Bytes)

/-- A frame that names no request changes nothing. -/
theorem perform_dispatch_of_eq_none (names : Envelope.requestIdOf frame = .none) :
    runner.perform outside (.dispatch frame) =
      ⟨runner, ((Core.heard (Envelope.decode outside.signing.scheme ServerMessage frame)).map
        News.heard).toList, none⟩ := by
  simp only [perform, Core.dispatch_of_eq_none outside.signing runner.core names]
  cases Core.heard (Envelope.decode outside.signing.scheme ServerMessage frame) <;> rfl

theorem perform_dispatch_of_find?_eq_none (names : Envelope.requestIdOf frame ≠ .none)
    (absent : runner.core.registry.find? (Envelope.requestIdOf frame) = none) :
    runner.perform outside (.dispatch frame) = ⟨runner, [], none⟩ := by
  simp only [perform, Core.dispatch_of_find?_eq_none outside.signing runner.core names absent]
  rfl

theorem perform_dispatch_of_find?_eq_some (names : Envelope.requestIdOf frame ≠ .none)
    {request : Pending κ}
    (waits : runner.core.registry.find? (Envelope.requestIdOf frame) = some request) :
    runner.perform outside (.dispatch frame) =
      ⟨{ runner with core := { runner.core with
          registry := runner.core.registry.free (Envelope.requestIdOf frame) } },
        (request.deliver (request.verdict
          (Envelope.decode outside.signing.scheme ServerMessage frame))).map News.delivery,
        none⟩ := by
  simp only [perform, Core.dispatch_of_find?_eq_some outside.signing runner.core names waits,
    Option.toList_none, List.map_nil, List.append_nil]

theorem outbox_perform_dispatch :
    (runner.perform outside (.dispatch frame)).runner.core.outbox = runner.core.outbox := by
  by_cases names : Envelope.requestIdOf frame = .none
  · rw [perform_dispatch_of_eq_none outside runner frame names]
  · cases waits : runner.core.registry.find? (Envelope.requestIdOf frame) with
    | none => rw [perform_dispatch_of_find?_eq_none outside runner frame names waits]
    | some request => rw [perform_dispatch_of_find?_eq_some outside runner frame names waits]

/-- No one hears of a frame for a request but the request. -/
theorem not_heard_perform_dispatch (names : Envelope.requestIdOf frame ≠ .none)
    (message : ServerMessage) :
    .heard message ∉ (runner.perform outside (.dispatch frame)).news := by
  intro heard
  cases waits : runner.core.registry.find? (Envelope.requestIdOf frame) with
  | none =>
    rw [perform_dispatch_of_find?_eq_none outside runner frame names waits] at heard
    cases heard
  | some request =>
    rw [perform_dispatch_of_find?_eq_some outside runner frame names waits] at heard
    obtain ⟨_, _, other⟩ := List.mem_map.mp heard
    cases other

theorem perform_dispatch_spares (names : Envelope.requestIdOf frame ≠ .none) {other : RequestId}
    (apart : other ≠ Envelope.requestIdOf frame) :
    let after := (runner.perform outside (.dispatch frame)).runner.core.registry
    after.find? other = runner.core.registry.find? other ∧
      (other ∈ after.inUse ↔ other ∈ runner.core.registry.inUse) := by
  intro after
  cases waits : runner.core.registry.find? (Envelope.requestIdOf frame) with
  | none =>
    have kept : after = runner.core.registry := by
      simp only [after, perform_dispatch_of_find?_eq_none outside runner frame names waits]
    rw [kept]
    exact ⟨rfl, Iff.rfl⟩
  | some request =>
    have freed : after = runner.core.registry.free (Envelope.requestIdOf frame) := by
      simp only [after, perform_dispatch_of_find?_eq_some outside runner frame names waits]
    rw [freed]
    refine ⟨Registry.find?_free_of_ne _ apart, ?_⟩
    rw [Registry.inUse_free, IdSet.mem_erase]
    exact and_iff_left apart

/-- A frame for a request that waits gives its id back, and tells its caller the verdict. -/
theorem perform_dispatch_ends (names : Envelope.requestIdOf frame ≠ .none) {request : Pending κ}
    (waits : runner.core.registry.find? (Envelope.requestIdOf frame) = some request) :
    let effect := runner.perform outside (.dispatch frame)
    effect.runner.core.registry.find? (Envelope.requestIdOf frame) = none ∧
      Envelope.requestIdOf frame ∉ effect.runner.core.registry.inUse ∧
      effect.news = if request.awaited then [.delivery ⟨request.caller,
        request.verdict (Envelope.decode outside.signing.scheme ServerMessage frame)⟩] else [] := by
  intro effect
  have same : effect = _ := perform_dispatch_of_find?_eq_some outside runner frame names waits
  rw [same]
  refine ⟨Registry.find?_free_self _ _, ?_, ?_⟩
  · rw [Registry.inUse_free, IdSet.mem_erase]
    exact fun member => member.2 rfl
  · unfold Pending.deliver
    cases request.awaited <;> rfl

/-- A frame is routed by its id alone. Under no id it is for everyone, if it is a message at all.
Under any other id it is for the one request that waits there, which ends with what the frame says,
and for no one if none waits. The id and the tag are those that decoding finds. -/
theorem dispatch_routes_by_id (outside : Surroundings σ) (runner : Runner κ σ) (frame : Bytes) :
    let id := Envelope.requestIdOf frame
    let decoded := Envelope.decode outside.signing.scheme ServerMessage frame
    let effect := runner.perform outside (.dispatch frame)
    let before := runner.core.registry
    let after := effect.runner.core.registry
    effect.runner.core.outbox = runner.core.outbox ∧
    (id = .none → after = before ∧
      effect.news = match decoded with
        | .ok envelope => [.heard envelope.message]
        | .error _ => []) ∧
    (id ≠ .none →
      (∀ message, .heard message ∉ effect.news) ∧
      (∀ other, other ≠ id → after.find? other = before.find? other ∧
        (other ∈ after.inUse ↔ other ∈ before.inUse)) ∧
      (before.find? id = none → after = before ∧ effect.news = []) ∧
      ∀ request, before.find? id = some request →
        after.find? id = none ∧ id ∉ after.inUse ∧
        ∃ outcome,
          effect.news =
            (if request.awaited then [.delivery ⟨request.caller, outcome⟩] else []) ∧
          (∀ envelope fault, decoded = .ok envelope → envelope.message = .fault fault →
            outcome = .error (.server fault)) ∧
          (∀ envelope, decoded = .ok envelope → (∀ fault, envelope.message ≠ .fault fault) →
            outcome = .reply ⟨envelope.message, request.sentAt⟩) ∧
          ∀ cause, decoded = .error cause → outcome = .error (.decode cause)) ∧
    ∀ envelope, decoded = .ok envelope →
      envelope.requestId = id ∧ Envelope.tagOf? frame = some envelope.tag := by
  intro id decoded effect before after
  refine ⟨outbox_perform_dispatch outside runner frame, ?_, ?_, ?_⟩
  · intro names
    have same : effect = _ := perform_dispatch_of_eq_none outside runner frame names
    refine ⟨congrArg (fun effect => effect.runner.core.registry) same, ?_⟩
    rw [same]
    change ((Core.heard decoded).map News.heard).toList = _
    cases decoded <;> rfl
  · intro names
    refine ⟨not_heard_perform_dispatch outside runner frame names,
      fun other apart => perform_dispatch_spares outside runner frame names apart, ?_, ?_⟩
    · intro absent
      have same : effect = _ :=
        perform_dispatch_of_find?_eq_none outside runner frame names absent
      exact ⟨congrArg (fun effect => effect.runner.core.registry) same, by rw [same]⟩
    · intro request waits
      obtain ⟨gone, freed, told⟩ := perform_dispatch_ends outside runner frame names waits
      refine ⟨gone, freed, request.verdict decoded, told, ?_, ?_, ?_⟩
      · exact fun envelope fault reads reports => request.verdict_of_fault reads reports
      · exact fun envelope reads answers => request.verdict_of_answer reads answers
      · intro cause fails
        rw [fails]
        rfl
  · intro envelope reads
    obtain ⟨named, tagged⟩ := Envelope.glance_of_decode reads
    exact ⟨named.symm, tagged⟩

end Runner

end Tether.Session
