import Tether.Proofs.Session.Course
import Tether.Proofs.Session.Registry

/-! Every turn does at most one thing to the books of a session, and these are all there are. What
holds of the books throughout a course is therefore what each of these deeds keeps. -/

namespace Tether.Session

open Message (ClientMessage Vocabulary)
open Time (Instant Timestamp)
open Transport (ConnectionId TransportError)

variable {κ σ : Type}

/-- Something that is done to the books in one piece. -/
inductive Deed (κ : Type) where
  | nothing
  | submit (message : ClientMessage) (caller : κ)
  | notify (message : ClientMessage)
  | abandon (caller : κ)
  /-- The first so many frames of the outbox are written to a connection. -/
  | ship (line : ConnectionId) (count : Nat)
  | requeue
  | dispatch (frame : Bytes)
  | sweep
  | teardown
  deriving DecidableEq

namespace Core

theorem enqueue_eq_ok {outbox next : Outbox} {frame : QueuedFrame}
    (enqueued : outbox.enqueue frame = .ok next) :
    outbox.size < outbox.capacity ∧ next = { outbox with frames := outbox.frames ++ [frame] } := by
  unfold Outbox.enqueue at enqueued
  split at enqueued
  · cases enqueued
  · rename_i room
    cases enqueued
    exact ⟨by omega, rfl⟩

theorem enqueue_eq_error {outbox : Outbox} {frame : QueuedFrame} {cause : SessionError}
    (failed : outbox.enqueue frame = .error cause) : cause = .queueFull := by
  unfold Outbox.enqueue at failed
  split at failed
  · cases failed
    rfl
  · cases failed

/-- What begins with a step whose failures are renamed goes well only if that step does. -/
private theorem eq_ok_of_bind {ε δ α β : Type} {first : Except ε α} {rename : ε → δ}
    {rest : α → Except δ β} {last : β} (ok : (first.mapError rename >>= rest) = .ok last) :
    ∃ value, first = .ok value ∧ rest value = .ok last := by
  cases first with
  | error cause => cases ok
  | ok value => exact ⟨value, rfl, ok⟩

private theorem eq_error_of_bind {ε δ α β : Type} {first : Except ε α} {rename : ε → δ}
    {rest : α → Except δ β} {cause : δ} (failed : (first.mapError rename >>= rest) = .error cause) :
    (∃ fault, first = .error fault ∧ cause = rename fault) ∨
      ∃ value, first = .ok value ∧ rest value = .error cause := by
  cases first with
  | error fault => exact Or.inl ⟨fault, rfl, (Except.error.inj failed).symm⟩
  | ok value => exact Or.inr ⟨value, rfl, failed⟩

theorem enlist_eq_ok {signing : Signing} {core next : Core κ} {id : RequestId}
    {deadline : Option Instant} {message : ClientMessage} {caller : κ}
    (enlisted : core.enlist signing id deadline message caller = .ok next) :
    ∃ frame, Envelope.encode signing.scheme message id signing.keys = .ok frame ∧
      next = { core with
        registry := { core.registry with
          pending := core.registry.pending ++
            [⟨id, Vocabulary.tag message, deadline, caller, true, frame, none⟩] }
        outbox := { core.outbox with frames := core.outbox.frames ++ [⟨id, frame⟩] } } := by
  obtain ⟨frame, encoded, queues⟩ := eq_ok_of_bind enlisted
  obtain ⟨registry, registered, queues⟩ := eq_ok_of_bind queues
  obtain ⟨outbox, enqueued, same⟩ := eq_ok_of_bind queues
  refine ⟨frame, encoded, ?_⟩
  rw [← Except.ok.inj same, Registry.register_eq_ok registered, (enqueue_eq_ok enqueued).2]

theorem room_of_enlist {signing : Signing} {core next : Core κ} {id : RequestId}
    {deadline : Option Instant} {message : ClientMessage} {caller : κ}
    (enlisted : core.enlist signing id deadline message caller = .ok next) :
    core.outbox.size < core.outbox.capacity := by
  obtain ⟨frame, _, queues⟩ := eq_ok_of_bind enlisted
  obtain ⟨registry, _, queues⟩ := eq_ok_of_bind queues
  obtain ⟨outbox, enqueued, _⟩ := eq_ok_of_bind queues
  exact (enqueue_eq_ok enqueued).1

/-- A caller was let in: it waits under a new id at the end of the registry, and its frame waits at
the end of the outbox. -/
def Admits (core : Core κ) (signing : Signing) (message : ClientMessage) (caller : κ)
    (next : Core κ) : Prop :=
  ∃ id taken deadline frame,
    core.registry.allocate = .ok (id, taken) ∧
    Envelope.encode signing.scheme message id signing.keys = .ok frame ∧
    next = { core with
      registry := { taken with
        pending := taken.pending ++
          [⟨id, Vocabulary.tag message, deadline, caller, true, frame, none⟩] }
      outbox := { core.outbox with frames := core.outbox.frames ++ [⟨id, frame⟩] } }

theorem enlist_eq_error {signing : Signing} {core : Core κ} {id : RequestId}
    {deadline : Option Instant} {message : ClientMessage} {caller : κ} {cause : CallError}
    (failed : core.enlist signing id deadline message caller = .error cause) :
    (∃ fault, cause = .frame fault) ∨ cause = .session (.notAllocated id) ∨
      cause = .session (.alreadyPending id) ∨ cause = .session .queueFull := by
  rcases eq_error_of_bind failed with ⟨fault, _, rfl⟩ | ⟨frame, _, queues⟩
  · exact Or.inl ⟨fault, rfl⟩
  · rcases eq_error_of_bind queues with ⟨fault, refused, rfl⟩ | ⟨registry, _, last⟩
    · rcases Registry.register_eq_error refused with rfl | rfl
      · exact Or.inr (Or.inl rfl)
      · exact Or.inr (Or.inr (Or.inl rfl))
    · rcases eq_error_of_bind last with ⟨fault, full, rfl⟩ | ⟨outbox, _, fine⟩
      · rw [enqueue_eq_error full]
        exact Or.inr (Or.inr (Or.inr rfl))
      · cases fine

/-- What a submission comes to, and what it leaves: the session is closed, there is no id left, the
call breaks off with an id taken, it fails and gives the id back, or it lets the caller in. -/
theorem submit_outcome (signing : Signing) (settings : Settings) (now : Instant) (core : Core κ)
    (message : ClientMessage) (caller : κ) :
    (core.closed = true ∧
        core.submit signing settings now message caller = (.error (.session .closed), core)) ∨
      (core.closed = false ∧ ∃ cause, core.registry.allocate = .error cause ∧
        core.submit signing settings now message caller = (.error (.session cause), core)) ∨
      ∃ id taken, core.closed = false ∧ core.registry.allocate = .ok (id, taken) ∧
        ((settings.deadline? now = none ∧ core.submit signing settings now message caller =
            (.error .deadline, { core with registry := taken })) ∨
          (∃ cause, cause ≠ .deadline ∧ core.submit signing settings now message caller =
            (.error cause, { core with registry := taken.free id })) ∨
          ∃ deadline frame, Envelope.encode signing.scheme message id signing.keys = .ok frame ∧
            core.submit signing settings now message caller = (.ok (), { core with
              registry := { taken with
                pending := taken.pending ++
                  [⟨id, Vocabulary.tag message, deadline, caller, true, frame, none⟩] }
              outbox := { core.outbox with frames := core.outbox.frames ++ [⟨id, frame⟩] } })) := by
  cases closed : core.closed with
  | true => exact Or.inl ⟨rfl, by simp [submit, closed]⟩
  | false =>
    right
    cases allocated : core.registry.allocate with
    | error cause => exact Or.inl ⟨rfl, cause, rfl, by simp [submit, closed, allocated]⟩
    | ok pair =>
      obtain ⟨id, taken⟩ := pair
      refine Or.inr ⟨id, taken, rfl, rfl, ?_⟩
      cases limit : settings.deadline? now with
      | none => exact Or.inl ⟨rfl, by simp [submit, closed, allocated, limit]⟩
      | some deadline =>
        right
        cases enlisted :
            enlist signing ⟨taken, core.outbox, core.closed⟩ id deadline message caller with
        | error cause =>
          refine Or.inl ⟨cause, ?_, ?_⟩
          · rintro rfl
            rcases enlist_eq_error enlisted with ⟨_, other⟩ | other | other | other <;> cases other
          · rw [closed] at enlisted
            simp [submit, closed, allocated, limit, enlisted]
        | ok next =>
          obtain ⟨frame, encoded, rfl⟩ := enlist_eq_ok enlisted
          refine Or.inr ⟨deadline, frame, encoded, ?_⟩
          rw [closed] at enlisted
          simp [submit, closed, allocated, limit, enlisted]

theorem room_of_submit {signing : Signing} {settings : Settings} {now : Instant} {core : Core κ}
    {message : ClientMessage} {caller : κ}
    (admitted : (core.submit signing settings now message caller).1 = .ok ()) :
    core.outbox.size < core.outbox.capacity := by
  unfold submit at admitted
  split at admitted
  · cases admitted
  · split at admitted
    · cases admitted
    · split at admitted
      · cases admitted
      · dsimp only at admitted
        split at admitted
        · cases admitted
        · rename_i enlisted
          have room := room_of_enlist enlisted
          exact room

/-- A submission lets the caller in, or leaves the requests and frames alone. At most the id that it
took first is still taken then. -/
theorem submit_cases (signing : Signing) (settings : Settings) (now : Instant) (core : Core κ)
    (message : ClientMessage) (caller : κ) :
    core.Admits signing message caller (core.submit signing settings now message caller).2 ∨
      (core.submit signing settings now message caller).2 = core ∨
      ∃ id taken, core.registry.allocate = .ok (id, taken) ∧
        ((core.submit signing settings now message caller).2 = { core with registry := taken } ∨
          (core.submit signing settings now message caller).2 =
            { core with registry := taken.free id }) := by
  rcases core.submit_outcome signing settings now message caller with
    ⟨_, same⟩ | ⟨_, _, _, same⟩ | ⟨id, taken, _, allocated, outcome⟩
  · rw [same]
    exact Or.inr (Or.inl rfl)
  · rw [same]
    exact Or.inr (Or.inl rfl)
  · rcases outcome with ⟨_, same⟩ | ⟨_, _, same⟩ | ⟨deadline, frame, encoded, same⟩
    · rw [same]
      exact Or.inr (Or.inr ⟨id, taken, allocated, Or.inl rfl⟩)
    · rw [same]
      exact Or.inr (Or.inr ⟨id, taken, allocated, Or.inr rfl⟩)
    · rw [same]
      exact Or.inl ⟨id, taken, deadline, frame, allocated, encoded, rfl⟩

/-- A submission that does not let the caller in leaves the outbox alone and adds no request. -/
theorem submit_admits_or (signing : Signing) (settings : Settings) (now : Instant) (core : Core κ)
    (message : ClientMessage) (caller : κ) :
    core.Admits signing message caller (core.submit signing settings now message caller).2 ∨
      (core.submit signing settings now message caller).2.outbox = core.outbox ∧
      (core.submit signing settings now message caller).2.registry.pending.Sublist
        core.registry.pending := by
  rcases core.submit_cases signing settings now message caller with
    admits | same | ⟨id, taken, allocated, same | same⟩
  · exact Or.inl admits
  · rw [same]
    exact Or.inr ⟨rfl, List.Sublist.refl _⟩
  · obtain ⟨_, rfl⟩ := Registry.allocate_eq_ok allocated
    rw [same]
    exact Or.inr ⟨rfl, List.Sublist.refl _⟩
  · obtain ⟨_, rfl⟩ := Registry.allocate_eq_ok allocated
    rw [same]
    exact Or.inr ⟨rfl, List.filter_sublist⟩

theorem notify_eq_ok {signing : Signing} {core next : Core κ} {message : ClientMessage}
    (notified : core.notify signing message = .ok next) :
    ∃ frame, Envelope.encode signing.scheme message .none signing.keys = .ok frame ∧
      next = { core with
        outbox := { core.outbox with frames := core.outbox.frames ++ [⟨.none, frame⟩] } } := by
  obtain ⟨frame, encoded, queues⟩ := eq_ok_of_bind notified
  refine ⟨frame, encoded, ?_⟩
  by_cases closed : core.closed
  · rw [if_pos closed] at queues
    cases queues
  · rw [if_neg closed] at queues
    obtain ⟨outbox, enqueued, same⟩ := eq_ok_of_bind queues
    rw [← Except.ok.inj same, (enqueue_eq_ok enqueued).2]

theorem room_of_notify {signing : Signing} {core next : Core κ} {message : ClientMessage}
    (notified : core.notify signing message = .ok next) :
    core.outbox.size < core.outbox.capacity := by
  obtain ⟨frame, _, queues⟩ := eq_ok_of_bind notified
  by_cases closed : core.closed
  · rw [if_pos closed] at queues
    cases queues
  · rw [if_neg closed] at queues
    obtain ⟨outbox, enqueued, _⟩ := eq_ok_of_bind queues
    exact (enqueue_eq_ok enqueued).1

/-- A frame for a request ends it, however it reads. -/
theorem dispatch_eq_settled (signing : Signing) (core : Core κ) (frame : Bytes)
    (proper : Envelope.requestIdOf frame ≠ .none) :
    ∃ outcome, core.dispatch signing frame =
      core.settled (core.registry.settle? (Envelope.requestIdOf frame) outcome) := by
  unfold dispatch
  simp only [proper, ↓reduceIte]
  split
  · exact ⟨_, rfl⟩
  · exact ⟨_, rfl⟩
  · exact ⟨_, rfl⟩

theorem dispatch_cases (signing : Signing) (core : Core κ) (frame : Bytes) :
    ((core.dispatch signing frame).core = core ∧ (core.dispatch signing frame).deliveries = [] ∧
        (Envelope.requestIdOf frame = .none ∨
          core.registry.find? (Envelope.requestIdOf frame) = none)) ∨
      ∃ request outcome, Envelope.requestIdOf frame ≠ .none ∧
        core.registry.find? (Envelope.requestIdOf frame) = some request ∧
        (core.dispatch signing frame).core =
          { core with registry := core.registry.free (Envelope.requestIdOf frame) } ∧
        (core.dispatch signing frame).deliveries = request.deliver outcome := by
  by_cases proper : Envelope.requestIdOf frame = .none
  · refine Or.inl ⟨?_, ?_, Or.inl proper⟩
    · simp only [dispatch, proper, ↓reduceIte]
      split <;> rfl
    · simp only [dispatch, proper, ↓reduceIte]
      split <;> rfl
  · obtain ⟨outcome, same⟩ := dispatch_eq_settled signing core frame proper
    rw [same]
    cases found : core.registry.find? (Envelope.requestIdOf frame) with
    | none =>
      refine Or.inl ⟨?_, ?_, Or.inr rfl⟩
      · simp [settled, Registry.settle?, found]
      · simp [settled, Registry.settle?, found]
    | some request =>
      refine Or.inr ⟨request, outcome request, proper, rfl, ?_, ?_⟩
      · simp [settled, Registry.settle?, found]
      · simp [settled, Registry.settle?, found]

theorem frames_sweep (core : Core κ) (now : Instant) :
    (core.sweep now).1.outbox.frames =
      core.outbox.frames.filter fun frame => frame.id ∉ core.registry.staleIds now := by
  have removes (ids : List RequestId) (outbox : Outbox) :
      (ids.foldl Outbox.remove outbox).frames =
        outbox.frames.filter fun frame => frame.id ∉ ids := by
    induction ids generalizing outbox with
    | nil => exact (List.filter_eq_self.mpr (by simp)).symm
    | cons id ids ih =>
      rw [List.foldl_cons, ih, Outbox.remove, List.filter_filter]
      apply List.filter_congr
      intro frame _
      by_cases same : frame.id = id <;> simp [same]
  exact removes _ _

theorem capacity_sweep (core : Core κ) (now : Instant) :
    (core.sweep now).1.outbox.capacity = core.outbox.capacity := by
  have removes (ids : List RequestId) (outbox : Outbox) :
      (ids.foldl Outbox.remove outbox).capacity = outbox.capacity := by
    induction ids generalizing outbox with
    | nil => rfl
    | cons id ids ih => exact ih (outbox.remove id)
  exact removes _ _

theorem pending_sweep (core : Core κ) (now : Instant) :
    (core.sweep now).1.registry.pending =
      core.registry.pending.filter fun request => request.id ∉ core.registry.staleIds now :=
  Registry.pending_expire core.registry now

/-- The books after the first so many frames of the outbox were written. -/
def ship (core : Core κ) (count : Nat) (time : Timestamp) : Core κ :=
  { core with
    registry := core.registry.markSentAll ((core.outbox.frames.take count).map QueuedFrame.id) time
    outbox := { core.outbox with frames := core.outbox.frames.drop count } }

private theorem sendFrames_port (port : Port σ) (line : ConnectionId) (time : Timestamp)
    (frames : List QueuedFrame) (registry : Registry κ) (wires : Wires σ) :
    ∃ count failure rest,
      Outbox.sendFrames
        (fun bytes state =>
          ((port.carrier.send line bytes state.2).1,
            (state.1, (port.carrier.send line bytes state.2).2)))
        (fun frame state => (state.1.markSent frame.id time, state.2))
        frames (registry, wires) =
      (⟨count, failure⟩, frames.drop count,
        registry.markSentAll ((frames.take count).map QueuedFrame.id) time,
        { wires with
          accepted := wires.accepted ++ (frames.take count).map fun frame => (line, frame.bytes)
          rest }) ∧
      count ≤ frames.length ∧ (failure = none → count = frames.length) := by
  induction frames generalizing registry wires with
  | nil =>
    refine ⟨0, none, wires.rest, ?_, Nat.le_refl 0, fun _ => rfl⟩
    simp [Outbox.sendFrames, Registry.markSentAll]
  | cons frame frames ih =>
    cases sent : port.send line frame.bytes wires.rest with
    | mk failure rest =>
      cases failure with
      | some failure =>
        refine ⟨0, some failure, rest, ?_, Nat.zero_le _, by simp⟩
        simp [Outbox.sendFrames, Port.carrier, sent, Registry.markSentAll]
      | none =>
        obtain ⟨count, failure, last, written, bound, whole⟩ := ih
          (registry.markSent frame.id time)
          { wires with rest, accepted := wires.accepted ++ [(line, frame.bytes)] }
        refine ⟨count + 1, failure, last, ?_, Nat.succ_le_succ bound, ?_⟩
        · have taken : port.carrier.send line frame.bytes wires =
              (none, { wires with rest, accepted := wires.accepted ++ [(line, frame.bytes)] }) := by
            simp only [Port.carrier, sent]
          simp only [Outbox.sendFrames, taken, written, List.take_succ_cons, List.map_cons,
            List.drop_succ_cons, List.append_assoc, List.cons_append, List.nil_append,
            Registry.markSentAll_cons]
        · intro unfailing
          simp [whole unfailing]

/-- A flush ships the frames before the first that failed, or all if none did. -/
theorem flush_port (port : Port σ) (line : ConnectionId) (time : Timestamp) (core : Core κ)
    (wires : Wires σ) :
    ∃ count failure rest,
      core.flush (port.carrier.send line) time wires =
        (⟨count, failure⟩, core.ship count time,
          { wires with
            accepted := wires.accepted ++
              (core.outbox.frames.take count).map fun frame => (line, frame.bytes)
            rest }) ∧
      count ≤ core.outbox.frames.length ∧
      (failure = none → count = core.outbox.frames.length) := by
  obtain ⟨count, failure, rest, written, bound, whole⟩ :=
    sendFrames_port port line time core.outbox.frames core.registry wires
  refine ⟨count, failure, rest, ?_, bound, whole⟩
  simp only [flush, Outbox.flush, written, ship]

def after [DecidableEq κ] (terms : Terms σ) (now : Instant) (time : Timestamp) (core : Core κ) :
    Deed κ → Core κ
  | .nothing => core
  | .submit message caller => (core.submit terms.signing terms.settings now message caller).2
  | .notify message =>
    match core.notify terms.signing message with
    | .ok next => next
    | .error _ => core
  | .abandon caller => { core with registry := core.registry.abandon caller }
  | .ship _ count => core.ship count time
  | .requeue => core.requeueUnanswered
  | .dispatch frame => (core.dispatch terms.signing frame).core
  | .sweep => (core.sweep now).1
  | .teardown => core.failPending.1

/-- A notification puts its frame into the queue, or it changes nothing. -/
theorem after_notify_cases [DecidableEq κ] (terms : Terms σ) (now : Instant) (time : Timestamp)
    (core : Core κ) (message : ClientMessage) :
    core.after terms now time (.notify message) = core ∨
      core.outbox.size < core.outbox.capacity ∧ ∃ frame,
        core.after terms now time (.notify message) = { core with
          outbox := { core.outbox with frames := core.outbox.frames ++ [⟨.none, frame⟩] } } := by
  simp only [after]
  cases notified : core.notify terms.signing message with
  | ok next =>
    obtain ⟨frame, _, same⟩ := notify_eq_ok notified
    exact Or.inr ⟨room_of_notify notified, frame, same⟩
  | error cause => exact Or.inl rfl

theorem registry_after_notify [DecidableEq κ] (terms : Terms σ) (now : Instant) (time : Timestamp)
    (core : Core κ) (message : ClientMessage) :
    (core.after terms now time (.notify message)).registry = core.registry := by
  rcases core.after_notify_cases terms now time message with same | ⟨_, frame, same⟩
  · rw [same]
  · rw [same]

end Core

/-- What a deed gives to connections. -/
def Deed.written (core : Core κ) : Deed κ → List (ConnectionId × Bytes)
  | .ship line count => (core.outbox.frames.take count).map fun frame => (line, frame.bytes)
  | _ => []

namespace Runner

variable (outside : Surroundings (Wires σ)) (runner : Runner κ (Wires σ))

def flushDeed : Deed κ :=
  match runner.lifecycle.state, runner.connection with
  | .connected, some line =>
    .ship line (runner.core.flush (outside.carrier.send line) outside.time runner.world).1.written
  | _, _ => .nothing

def deed : Action → Deed κ
  | .flushQueue => runner.flushDeed outside
  | .requeueUnanswered => .requeue
  | .dispatch frame => .dispatch frame
  | .failPending => .teardown
  | _ => .nothing

end Runner

namespace Course

variable (terms : Terms σ) (course : Course κ σ)

/-- What a turn does to the books. -/
def deed : Turn κ σ → Deed κ
  | .submit message caller => .submit message caller
  | .notify message => .notify message
  | .abandon caller => .abandon caller
  | .take choice =>
    match course.work, choice with
    | .waiting, .flush =>
      if course.runner.isOver then .nothing
      else course.runner.flushDeed (terms.outside course.now course.time)
    | .waiting, .sweep => if course.runner.isOver then .nothing else .sweep
    | _, _ => .nothing
  | .proceed =>
    match course.work with
    | .busy (action :: _) _ =>
      if course.runner.stranded then .nothing
      else course.runner.deed (terms.outside course.now course.time) action
    | _ => .nothing
  | _ => .nothing

end Course

section

variable (terms : Terms σ)

theorem Runner.flush_cases (now : Instant) (time : Timestamp) (runner : Runner κ (Wires σ)) :
    (runner.flush (terms.outside now time) = (runner, none) ∧
        runner.flushDeed (terms.outside now time) = .nothing) ∨
      ∃ line count rest, ∃ failure : Option String,
        runner.lifecycle.state = .connected ∧ runner.connection = some line ∧
        runner.flushDeed (terms.outside now time) = .ship line count ∧
        runner.flush (terms.outside now time) =
          ({ runner with
            core := runner.core.ship count time
            world := { runner.world with
              accepted := runner.world.accepted ++ (Deed.ship line count).written runner.core
              rest } }, failure.map Event.failed) ∧
        count ≤ runner.core.outbox.frames.length := by
  by_cases active : ∃ line, runner.lifecycle.state = .connected ∧ runner.connection = some line
  · obtain ⟨line, connected, current⟩ := active
    obtain ⟨count, failure, rest, flushed, bound, _⟩ :=
      Core.flush_port terms.port line time runner.core runner.world
    refine Or.inr ⟨line, count, rest, failure.map TransportError.message, connected, current,
      ?_, ?_, bound⟩
    · simp only [flushDeed, connected, current, Terms.outside_carrier, Terms.outside_time, flushed]
    · simp only [flush, connected, current, Terms.outside_carrier, Terms.outside_time, flushed,
        Deed.written, Option.map_map]
      rfl
  · refine Or.inl ⟨?_, ?_⟩
    · unfold Runner.flush
      split
      · rename_i line connected current
        exact absurd ⟨line, connected, current⟩ active
      · rfl
    · unfold Runner.flushDeed
      split
      · rename_i line connected current
        exact absurd ⟨line, connected, current⟩ active
      · rfl

theorem Runner.flushDeed_eq_ship {now : Instant} {time : Timestamp} {runner : Runner κ (Wires σ)}
    {line : ConnectionId} {count : Nat}
    (ships : runner.flushDeed (terms.outside now time) = .ship line count) :
    runner.lifecycle.state = .connected ∧ runner.connection = some line ∧
      count ≤ runner.core.outbox.frames.length := by
  rcases Runner.flush_cases terms now time runner with
    ⟨_, none⟩ | ⟨other, written, rest, failure, connected, current, same, _, bound⟩
  · rw [none] at ships
    cases ships
  · rw [same] at ships
    cases ships
    exact ⟨connected, current, bound⟩

namespace Course

theorem deed_eq_ship {course : Course κ σ} {next : Turn κ σ} {line : ConnectionId} {count : Nat}
    (ships : course.deed terms next = .ship line count) :
    course.state = .connected ∧ course.runner.connection = some line ∧
      count ≤ course.core.outbox.frames.length ∧
      (course.work.actions = [] ∨ ∃ actions, course.work.actions = .flushQueue :: actions) := by
  cases next with
  | take choice =>
    simp only [deed] at ships
    split at ships
    · rename_i idle
      split at ships
      · cases ships
      · obtain ⟨connected, current, bound⟩ := Runner.flushDeed_eq_ship terms ships
        exact ⟨connected, current, bound, Or.inl (by rw [idle]; rfl)⟩
    · split at ships <;> cases ships
    · cases ships
  | proceed =>
    simp only [deed] at ships
    split at ships
    · rename_i action actions events work
      split at ships
      · cases ships
      · cases action with
        | flushQueue =>
          obtain ⟨connected, current, bound⟩ := Runner.flushDeed_eq_ship terms ships
          exact ⟨connected, current, bound, Or.inr ⟨actions, by rw [work]; rfl⟩⟩
        | _ => cases ships
    · cases ships
  | _ => cases ships

/-- Some deeds are done only by a session that carries out an action. -/
theorem deed_cases (course : Course κ σ) (next : Turn κ σ) :
    (∃ action actions events, next = .proceed ∧ course.runner.stranded = false ∧
        course.work = .busy (action :: actions) events ∧
        course.deed terms next = course.runner.deed (terms.outside course.now course.time) action) ∨
      (course.deed terms next ≠ .requeue ∧ course.deed terms next ≠ .teardown ∧
        ∀ frame, course.deed terms next ≠ .dispatch frame) := by
  cases next with
  | take choice =>
    right
    simp only [deed]
    split
    · split
      · simp
      · unfold Runner.flushDeed
        split <;> simp
    · split <;> simp
    · simp
  | proceed =>
    simp only [deed]
    split
    · rename_i action actions events work
      split
      · exact Or.inr (by simp)
      · rename_i runs
        exact Or.inl ⟨action, actions, events, trivial, eq_false_of_ne_true runs, work, rfl⟩
    · exact Or.inr (by simp)
  | _ => exact Or.inr (by simp [deed])

theorem deed_eq_requeue {course : Course κ σ} {next : Turn κ σ}
    (requeues : course.deed terms next = .requeue) :
    ∃ actions events, course.work = .busy (.requeueUnanswered :: actions) events := by
  rcases course.deed_cases terms next with
    ⟨action, actions, events, _, _, work, same⟩ | ⟨other, _⟩
  · rw [same] at requeues
    cases action with
    | requeueUnanswered => exact ⟨actions, events, work⟩
    | flushQueue =>
      simp only [Runner.deed, Runner.flushDeed] at requeues
      split at requeues <;> cases requeues
    | _ => cases requeues
  · exact absurd requeues other

theorem deed_eq_dispatch {course : Course κ σ} {next : Turn κ σ} {frame : Bytes}
    (dispatches : course.deed terms next = .dispatch frame) :
    ∃ actions events, next = .proceed ∧ course.runner.stranded = false ∧
      course.work = .busy (.dispatch frame :: actions) events := by
  rcases course.deed_cases terms next with
    ⟨action, actions, events, proceeds, runs, work, same⟩ | ⟨_, _, other⟩
  · rw [same] at dispatches
    cases action with
    | dispatch other =>
      cases dispatches
      exact ⟨actions, events, proceeds, runs, work⟩
    | flushQueue =>
      simp only [Runner.deed, Runner.flushDeed] at dispatches
      split at dispatches <;> cases dispatches
    | _ => cases dispatches
  · exact absurd dispatches (other frame)

private theorem endAttempt_does (course : Course κ σ) (opened : List ConnectionId)
    (report : TransportEvent) :
    (course.endAttempt opened report).core = course.core ∧
      (course.endAttempt opened report).wires.accepted =
        course.wires.accepted ++ Deed.nothing.written course.core := by
  simp only [Deed.written, List.append_nil]
  rcases course.endAttempt_cases opened report with same | ⟨_, ended⟩
  · rw [same]
    exact ⟨rfl, rfl⟩
  · rw [ended]
    exact ⟨rfl, rfl⟩

private theorem read_does (course : Course κ σ) (id : ConnectionId) (last : Bool)
    (report : TransportEvent) :
    (course.read id last report).core = course.core ∧
      (course.read id last report).wires.accepted =
        course.wires.accepted ++ Deed.nothing.written course.core := by
  simp only [Deed.written, List.append_nil]
  rcases course.read_cases id last report with same | ⟨_, ended⟩
  · rw [same]
    exact ⟨rfl, rfl⟩
  · rw [ended]
    exact ⟨rfl, rfl⟩

end Course

variable [DecidableEq κ]

/-- An action changes the books by its deed. -/
theorem Runner.perform_does (now : Instant) (time : Timestamp) (runner : Runner κ (Wires σ))
    (action : Action) :
    (runner.perform (terms.outside now time) action).runner.core =
        runner.core.after terms now time
          (runner.deed (terms.outside now time) action) ∧
      (runner.perform (terms.outside now time) action).runner.world.accepted =
        runner.world.accepted ++
          (runner.deed (terms.outside now time) action).written
            runner.core := by
  cases action with
  | flushQueue =>
    simp only [perform, deed]
    rcases Runner.flush_cases terms now time runner with
      ⟨same, none⟩ | ⟨line, count, rest, failure, _, _, ships, flushed, _⟩
    · rw [same, none]
      exact ⟨rfl, (List.append_nil _).symm⟩
    · rw [flushed, ships]
      exact ⟨rfl, rfl⟩
  | openTransport => simp [perform, deed, Core.after, Deed.written, Port.carrier]
  | scheduleReconnect delay =>
    simp only [perform, deed, Core.after, Deed.written, List.append_nil]
    split <;> exact ⟨rfl, rfl⟩
  | closeTransport code reason =>
    simp only [perform, close, deed, Core.after, Deed.written, List.append_nil]
    split <;> exact ⟨rfl, rfl⟩
  | dropTransport =>
    simp only [perform, dropTransport, deed, Core.after, Deed.written, List.append_nil]
    split <;> exact ⟨rfl, rfl⟩
  | requeueUnanswered => simp [perform, deed, Core.after, Deed.written]
  | cancelReconnect => simp [perform, deed, Core.after, Deed.written]
  | dispatch frame => simp [perform, deed, Core.after, Deed.written]
  | failPending => simp [perform, deed, Core.after, Deed.written]

namespace Course

private theorem attend_does (course : Course κ σ) (choice : Choice) (waits : course.Waits) :
    (course.attend terms choice).core =
        course.core.after terms course.now course.time (course.deed terms (.take choice)) ∧
      (course.attend terms choice).wires.accepted =
        course.wires.accepted ++ (course.deed terms (.take choice)).written course.core := by
  obtain ⟨idle, lives⟩ := waits
  cases choice with
  | flush =>
    simp only [attend, deed, idle, lives]
    rcases Runner.flush_cases terms course.now course.time course.runner with
      ⟨same, none⟩ | ⟨line, count, rest, failure, _, _, ships, flushed, _⟩
    · rw [same, none]
      exact ⟨rfl, (List.append_nil _).symm⟩
    · rw [flushed, ships]
      exact ⟨rfl, rfl⟩
  | sweep =>
    simp only [attend, deed, idle, lives]
    exact ⟨rfl, (List.append_nil _).symm⟩
  | disconnect =>
    simp only [attend, deed, idle]
    exact ⟨rfl, (List.append_nil _).symm⟩
  | delay =>
    simp only [attend, deed, idle]
    split <;> exact ⟨rfl, (List.append_nil _).symm⟩
  | report =>
    simp only [attend, deed, idle]
    split
    · exact ⟨rfl, (List.append_nil _).symm⟩
    · rename_i report reports _
      cases report with
      | opened id =>
        simp only [Runner.receive, Runner.dropTransport]
        split <;> exact ⟨rfl, (List.append_nil _).symm⟩
      | refused reason => exact ⟨rfl, (List.append_nil _).symm⟩
      | message id frame => exact ⟨rfl, (List.append_nil _).symm⟩
      | closed id frame => exact ⟨rfl, (List.append_nil _).symm⟩
      | failed id reason => exact ⟨rfl, (List.append_nil _).symm⟩

private theorem advance_does (course : Course κ σ) :
    (course.advance terms).core =
        course.core.after terms course.now course.time (course.deed terms .proceed) ∧
      (course.advance terms).wires.accepted =
        course.wires.accepted ++ (course.deed terms .proceed).written course.core := by
  cases stranded : course.runner.stranded with
  | true =>
    have none : course.deed terms .proceed = .nothing := by
      simp only [deed, stranded, ↓reduceIte]
      split <;> rfl
    rw [none, show course.advance terms = course from if_pos stranded]
    exact ⟨rfl, (List.append_nil _).symm⟩
  | false =>
    simp only [advance, deed, stranded]
    cases course.work with
    | waiting => exact ⟨rfl, (List.append_nil _).symm⟩
    | busy actions events =>
      cases actions with
      | cons action actions =>
        exact Runner.perform_does terms course.now course.time course.runner action
      | nil =>
        cases events with
        | cons event events => exact ⟨rfl, (List.append_nil _).symm⟩
        | nil =>
          obtain ⟨published, shown⟩ := course.runner.publish_runner
          simp only [core, wires, shown]
          exact ⟨rfl, (List.append_nil _).symm⟩

/-- Every turn changes the books by its deed, and connections accept what the deed gives them. -/
theorem turn_does (course : Course κ σ) (next : Turn κ σ) :
    (course.turn terms next).core =
        course.core.after terms course.now course.time (course.deed terms next) ∧
      (course.turn terms next).wires.accepted =
        course.wires.accepted ++ (course.deed terms next).written course.core := by
  cases next with
  | submit message caller => exact ⟨rfl, (List.append_nil _).symm⟩
  | notify message =>
    cases notified : course.core.notify terms.signing message with
    | ok core =>
      simp only [turn, deed, Core.after, notified]
      exact ⟨rfl, (List.append_nil _).symm⟩
    | error cause =>
      have same : course.turn terms (.notify message) = course := by simp only [turn, notified]
      rw [same]
      simp only [deed, Core.after, notified]
      exact ⟨trivial, (List.append_nil _).symm⟩
  | abandon caller => exact ⟨rfl, (List.append_nil _).symm⟩
  | tick now time => exact ⟨rfl, (List.append_nil _).symm⟩
  | happen change => exact ⟨rfl, (List.append_nil _).symm⟩
  | openLine id =>
    simp only [turn]
    split
    · exact ⟨rfl, (List.append_nil _).symm⟩
    · exact endAttempt_does course [id] (.opened id)
  | refuse reason => exact endAttempt_does course [] (.refused reason)
  | arrive id frame => exact read_does course id false (.message id frame)
  | hangUp id frame => exact read_does course id true (.closed id frame)
  | breakLine id reason => exact read_does course id true (.failed id reason)
  | take choice =>
    cases idle : course.work with
    | waiting =>
      cases ends : course.runner.isOver with
      | true =>
        have none : course.deed terms (.take choice) = .nothing := by
          cases choice <;> simp [deed, idle, ends]
        simp only [turn, idle, ends, none]
        exact ⟨rfl, (List.append_nil _).symm⟩
      | false =>
        simp only [turn, idle, ends]
        exact attend_does terms course choice ⟨idle, ends⟩
    | busy actions events =>
      have none : course.deed terms (.take choice) = .nothing := by simp only [deed, idle]
      have same : course.turn terms (.take choice) = course := by simp only [turn, idle]
      rw [none, same]
      exact ⟨rfl, (List.append_nil _).symm⟩
  | proceed => exact advance_does terms course

end Course

end

end Tether.Session
