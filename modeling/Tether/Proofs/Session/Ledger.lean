import Tether.Proofs.Session.Consistency

/-! Two frames may consist of the same bytes, and a request that is sent again has the frame that it
had before. To tell which is which, a ledger gives every frame that a caller hands in a number, in
the order in which they come, and follows it through the outbox to the connections that take it. The
ledger is kept beside a session; the session knows nothing of it. -/

namespace Tether.Session

open Time (Instant Timestamp)
open Transport (ConnectionId)

variable {κ σ : Type}

/-- A frame that a caller handed in. -/
structure Submission (κ : Type) where
  frame : QueuedFrame
  /-- Who waits for an answer, if there is to be one. -/
  caller : Option κ
  /-- How many turns came before. -/
  moment : Nat

/-- A frame with its number. -/
structure Entry where
  number : Nat
  frame : QueuedFrame
  deriving DecidableEq

/-- A frame that a connection took. -/
structure Writing where
  line : ConnectionId
  entry : Entry
  deriving DecidableEq

/-- What happened to frames so far. -/
structure Ledger (κ : Type) where
  /-- How many turns there were. -/
  moment : Nat
  /-- What callers handed in, the oldest first. A submission's number is its place. -/
  submissions : List (Submission κ)
  /-- The number of the latest submission under an id. -/
  holder : RequestId → Nat
  /-- What the outbox holds. -/
  queue : List Entry
  /-- What connections took, the oldest first. -/
  writings : List Writing

namespace Ledger

def empty : Ledger κ := ⟨0, [], fun _ => 0, [], []⟩

/-- Give a frame the next number, and let it wait behind the others. -/
def enter (ledger : Ledger κ) (caller : Option κ) : Option QueuedFrame → Ledger κ
  | none => ledger
  | some frame => { ledger with
      submissions := ledger.submissions ++ [⟨frame, caller, ledger.moment⟩]
      holder := fun id => if id = frame.id then ledger.submissions.length else ledger.holder id
      queue := ledger.queue ++ [⟨ledger.submissions.length, frame⟩] }

/-- The entries of requests that are put back into the outbox. -/
def returned (ledger : Ledger κ) (registry : Registry κ) : List Entry :=
  registry.unanswered.map fun entry => ⟨ledger.holder entry.1, ⟨entry.1, entry.2⟩⟩

def tick (ledger : Ledger κ) : Ledger κ := { ledger with moment := ledger.moment + 1 }

/-- Follow a deed. It turns the books `core` into `next`. -/
def follow (ledger : Ledger κ) (core next : Core κ) (now : Instant) : Deed κ → Ledger κ
  | .submit _ caller => ledger.enter (some caller) next.outbox.frames[core.outbox.frames.length]?
  | .notify _ => ledger.enter none next.outbox.frames[core.outbox.frames.length]?
  | .ship line count => { ledger with
      queue := ledger.queue.drop count
      writings := ledger.writings ++ (ledger.queue.take count).map fun entry => ⟨line, entry⟩ }
  | .requeue => { ledger with queue := ledger.returned core.registry ++ ledger.queue }
  | .sweep => { ledger with
      queue := ledger.queue.filter fun entry => entry.frame.id ∉ core.registry.staleIds now }
  | .teardown => { ledger with queue := [] }
  | .nothing => ledger
  | .abandon _ => ledger
  | .dispatch _ => ledger

end Ledger

/-- A course with its ledger. -/
structure Chronicle (κ σ : Type) where
  course : Course κ σ
  ledger : Ledger κ

namespace Chronicle

variable (terms : Terms σ)

def start (now : Instant) (time : Timestamp) (rest : σ) : Chronicle κ σ :=
  ⟨.start terms now time rest, .empty⟩

variable [DecidableEq κ]

def turn (chronicle : Chronicle κ σ) (next : Turn κ σ) : Chronicle κ σ where
  course := chronicle.course.turn terms next
  ledger :=
    let deed := chronicle.course.deed terms next
    (chronicle.ledger.follow chronicle.course.core
      (chronicle.course.core.after terms chronicle.course.now chronicle.course.time deed)
      chronicle.course.now deed).tick

def play (chronicle : Chronicle κ σ) (turns : List (Turn κ σ)) : Chronicle κ σ :=
  turns.foldl (turn terms) chronicle

@[simp] theorem course_play (chronicle : Chronicle κ σ) (turns : List (Turn κ σ)) :
    (chronicle.play terms turns).course = chronicle.course.play terms turns := by
  induction turns generalizing chronicle with
  | nil => rfl
  | cons next turns ih => exact ih _

theorem play_concat (chronicle : Chronicle κ σ) (turns : List (Turn κ σ)) (next : Turn κ σ) :
    chronicle.play terms (turns ++ [next]) = (chronicle.play terms turns).turn terms next :=
  List.foldl_append

theorem play_keeps (kept : Chronicle κ σ → Prop)
    (keeps : ∀ chronicle next, kept chronicle → kept (chronicle.turn terms next))
    (chronicle : Chronicle κ σ) (turns : List (Turn κ σ)) (holds : kept chronicle) :
    kept (chronicle.play terms turns) := by
  induction turns generalizing chronicle with
  | nil => exact holds
  | cons next turns ih => exact ih _ (keeps chronicle next holds)

end Chronicle

namespace Ledger

/-- The ledger has a frame under a number. -/
def Knows (ledger : Ledger κ) (entry : Entry) : Prop :=
  ∃ submission, ledger.submissions[entry.number]? = some submission ∧
    submission.frame = entry.frame

/-- The ledger agrees with the books `core` and with the frames that connections took. -/
structure Faithful (ledger : Ledger κ) (core : Core κ) (accepted : List (ConnectionId × Bytes)) :
    Prop where
  /-- The ledger's queue is the outbox. -/
  queue : ledger.queue.map Entry.frame = core.outbox.frames
  /-- The ledger's writings are the frames that connections took. -/
  writings : (ledger.writings.map fun writing => (writing.line, writing.entry.frame.bytes)) =
    accepted
  queued : ∀ entry ∈ ledger.queue, ledger.Knows entry
  written : ∀ writing ∈ ledger.writings, ledger.Knows writing.entry
  /-- A request that waits is the latest that was handed in under its id. -/
  holds : ∀ request ∈ core.registry.pending, ∃ submission,
    ledger.submissions[ledger.holder request.id]? = some submission ∧
      submission.frame = ⟨request.id, request.frame⟩ ∧ submission.caller = some request.caller
  latest : ∀ number submission, ledger.submissions[number]? = some submission →
    number ≤ ledger.holder submission.frame.id
  /-- Numbers are given in the order of the turns. -/
  ordered : ledger.submissions.Pairwise fun earlier later => earlier.moment < later.moment
  past : ∀ submission ∈ ledger.submissions, submission.moment < ledger.moment

theorem faithful_empty (capacity : Nat) :
    (empty : Ledger κ).Faithful (.empty capacity) [] := by
  constructor <;> simp [empty, Core.empty, Outbox.empty, Registry.empty]

variable {ledger : Ledger κ} {core next : Core κ} {accepted : List (ConnectionId × Bytes)}

private theorem Faithful.move (faithful : ledger.Faithful core accepted)
    (fewer : (next.registry.pending.map Pending.face).Sublist
      (core.registry.pending.map Pending.face))
    {entries : List Entry} (queue : entries.map Entry.frame = next.outbox.frames)
    (queued : ∀ entry ∈ entries, ledger.Knows entry) (more : List Writing)
    (written : ∀ writing ∈ more, ledger.Knows writing.entry) :
    (tick { ledger with queue := entries, writings := ledger.writings ++ more }).Faithful next
      (accepted ++ more.map fun writing => (writing.line, writing.entry.frame.bytes)) where
  queue := queue
  writings := by
    rw [← faithful.writings]
    exact List.map_append
  queued := queued
  written writing member :=
    (List.mem_append.mp member).elim (faithful.written writing) (written writing)
  holds request waits := by
    obtain ⟨old, waited, same⟩ := List.mem_map.mp (fewer.subset (List.mem_map_of_mem waits))
    obtain ⟨id, frame, caller⟩ : old.id = request.id ∧ old.frame = request.frame ∧
        old.caller = request.caller := by simpa [Pending.face] using same
    rw [← id, ← frame, ← caller]
    exact faithful.holds old waited
  latest := faithful.latest
  ordered := faithful.ordered
  past submission member := Nat.lt_succ_of_lt (faithful.past submission member)

private theorem Knows.enter {entry : Entry} (knows : ledger.Knows entry) (caller : Option κ)
    (frame : QueuedFrame) : (ledger.enter caller (some frame)).Knows entry := by
  obtain ⟨submission, there, same⟩ := knows
  refine ⟨submission, ?_, same⟩
  exact (List.getElem?_append_left (List.getElem?_eq_some_iff.mp there).1).trans there

/-- A frame that is handed in gets the next number, and holds its id from then on. -/
private theorem Faithful.enter (faithful : ledger.Faithful core accepted) {frame : QueuedFrame}
    {caller : Option κ} (queue : next.outbox.frames = core.outbox.frames ++ [frame])
    (pending : ∀ request ∈ next.registry.pending,
      (request ∈ core.registry.pending ∧ request.id ≠ frame.id) ∨
        (frame = ⟨request.id, request.frame⟩ ∧ caller = some request.caller)) :
    (ledger.enter caller (some frame)).tick.Faithful next accepted where
  queue := by
    rw [queue, ← faithful.queue]
    exact List.map_append
  writings := faithful.writings
  queued entry member := by
    rcases List.mem_append.mp member with older | new
    · exact (faithful.queued entry older).enter caller frame
    · rw [List.mem_singleton.mp new]
      exact ⟨_, List.getElem?_concat_length, rfl⟩
  written writing member := (faithful.written writing member).enter caller frame
  holds request waits := by
    rcases pending request waits with ⟨waited, other⟩ | ⟨rfl, rfl⟩
    · obtain ⟨submission, there, same⟩ := faithful.holds request waited
      refine ⟨submission, ?_, same⟩
      simp only [tick, Ledger.enter, other, ↓reduceIte]
      exact (List.getElem?_append_left (List.getElem?_eq_some_iff.mp there).1).trans there
    · refine ⟨⟨⟨request.id, request.frame⟩, some request.caller, ledger.moment⟩, ?_, rfl, rfl⟩
      simp [tick, Ledger.enter]
  latest number submission there := by
    have bound := (List.getElem?_eq_some_iff.mp there).1
    simp only [tick, Ledger.enter, List.length_append, List.length_singleton] at there bound ⊢
    split
    · omega
    · rename_i other
      by_cases older : number < ledger.submissions.length
      · rw [List.getElem?_append_left older] at there
        exact faithful.latest number submission there
      · obtain rfl : number = ledger.submissions.length := by omega
        rw [List.getElem?_concat_length] at there
        cases there
        exact absurd rfl other
  ordered := by
    refine List.pairwise_append.mpr ⟨faithful.ordered, List.pairwise_singleton _ _, ?_⟩
    intro earlier older later new
    rw [List.mem_singleton.mp new]
    exact faithful.past earlier older
  past submission member := by
    rcases List.mem_append.mp member with older | new
    · exact Nat.lt_succ_of_lt (faithful.past submission older)
    · rw [List.mem_singleton.mp new]
      exact Nat.lt_succ_self _

private theorem Faithful.rearrange (faithful : ledger.Faithful core accepted)
    (fewer : (next.registry.pending.map Pending.face).Sublist
      (core.registry.pending.map Pending.face))
    {entries : List Entry} (queue : entries.map Entry.frame = next.outbox.frames)
    (queued : ∀ entry ∈ entries, ledger.Knows entry) :
    (tick { ledger with queue := entries }).Faithful next accepted := by
  simpa using faithful.move fewer queue queued [] (by simp)

private theorem Faithful.stay (faithful : ledger.Faithful core accepted)
    (fewer : (next.registry.pending.map Pending.face).Sublist
      (core.registry.pending.map Pending.face))
    (same : next.outbox.frames = core.outbox.frames) : ledger.tick.Faithful next accepted :=
  faithful.rearrange fewer (faithful.queue.trans same.symm) faithful.queued

variable (terms : Terms σ)

private theorem Faithful.submit (faithful : ledger.Faithful core accepted) (orderly : core.Orderly)
    (now : Instant) (message : Message.ClientMessage) (caller : κ) :
    (ledger.follow core (core.submit terms.signing terms.settings now message caller).2 now
      (.submit message caller)).tick.Faithful
      (core.submit terms.signing terms.settings now message caller).2 accepted := by
  rcases core.submit_admits_or terms.signing terms.settings now message caller with
    ⟨id, taken, deadline, frame, allocated, _, same⟩ | ⟨same, fewer⟩
  · have fresh := (Registry.allocate_fresh allocated).2
    obtain ⟨_, rfl⟩ := Registry.allocate_eq_ok allocated
    rw [same]
    simp only [follow, List.getElem?_concat_length]
    refine faithful.enter rfl ?_
    intro request waits
    rcases List.mem_append.mp waits with waited | new
    · exact Or.inl ⟨waited, orderly.registry.vacant fresh request waited⟩
    · rw [List.mem_singleton.mp new]
      exact Or.inr ⟨rfl, rfl⟩
  · simp only [follow, same, List.getElem?_length, Ledger.enter]
    exact faithful.stay (fewer.map _) (congrArg Outbox.frames same)

private theorem Faithful.notify (faithful : ledger.Faithful core accepted) (orderly : core.Orderly)
    (now : Instant) {message : Message.ClientMessage}
    (notified : core.notify terms.signing message = .ok next) :
    (ledger.follow core next now (.notify message)).tick.Faithful next accepted := by
  obtain ⟨frame, _, rfl⟩ := Core.notify_eq_ok notified
  simp only [follow, List.getElem?_concat_length]
  refine faithful.enter rfl ?_
  intro request waits
  exact Or.inl ⟨waits, orderly.registry.id_ne_none waits⟩

private theorem Faithful.ship (faithful : ledger.Faithful core accepted) (line : ConnectionId)
    (count : Nat)
    (fewer : (next.registry.pending.map Pending.face).Sublist
      (core.registry.pending.map Pending.face))
    (left : next.outbox.frames = core.outbox.frames.drop count) (now : Instant) :
    (ledger.follow core next now (.ship line count)).tick.Faithful next
      (accepted ++ (Deed.ship line count).written core) := by
  have queue : (ledger.queue.drop count).map Entry.frame = next.outbox.frames := by
    rw [List.map_drop, faithful.queue, left]
  have moved := faithful.move fewer queue
    (fun entry member => faithful.queued entry (List.mem_of_mem_drop member))
    ((ledger.queue.take count).map fun entry => ⟨line, entry⟩)
    (by
      intro writing member
      obtain ⟨entry, taken, rfl⟩ := List.mem_map.mp member
      exact faithful.queued entry (List.mem_of_mem_take taken))
  rw [Deed.written, ← faithful.queue, ← List.map_take, List.map_map]
  rw [List.map_map] at moved
  exact moved

private theorem Faithful.requeue (faithful : ledger.Faithful core accepted)
    (fewer : (core.requeueUnanswered.registry.pending.map Pending.face).Sublist
      (core.registry.pending.map Pending.face)) (now : Instant) :
    (ledger.follow core core.requeueUnanswered now (.requeue : Deed κ)).tick.Faithful
      core.requeueUnanswered accepted := by
  refine faithful.rearrange fewer ?_ ?_
  · rw [List.map_append, faithful.queue, returned, List.map_map]
    rfl
  · intro entry member
    rcases List.mem_append.mp member with again | older
    · obtain ⟨_, unanswered, rfl⟩ := List.mem_map.mp again
      obtain ⟨request, sent, rfl⟩ := List.mem_map.mp unanswered
      obtain ⟨submission, there, same, _⟩ := faithful.holds request (List.mem_of_mem_filter sent)
      exact ⟨submission, there, same⟩
    · exact faithful.queued entry older

/-- The ledger stays faithful, whatever is done to the books. -/
theorem Faithful.follow [DecidableEq κ] (faithful : ledger.Faithful core accepted)
    (orderly : core.Orderly) (now : Instant) (time : Timestamp) (deed : Deed κ) :
    (ledger.follow core (core.after terms now time deed) now deed).tick.Faithful
      (core.after terms now time deed) (accepted ++ deed.written core) := by
  have fewer (other : ∀ message caller, deed ≠ .submit message caller) :=
    (core.faces_after terms now time deed).resolve_right
      fun ⟨message, caller, submits, _⟩ => other message caller submits
  cases deed with
  | nothing =>
    simp only [Deed.written, List.append_nil]
    exact faithful.stay (List.Sublist.refl _) rfl
  | submit message caller =>
    simp only [Deed.written, List.append_nil]
    exact faithful.submit terms orderly now message caller
  | notify message =>
    simp only [Deed.written, List.append_nil]
    cases notified : core.notify terms.signing message with
    | ok next =>
      simp only [Core.after, notified]
      exact faithful.notify terms orderly now notified
    | error cause =>
      simp only [Core.after, notified, Ledger.follow, Ledger.enter, List.getElem?_length]
      exact faithful.stay (List.Sublist.refl _) rfl
  | abandon caller =>
    simp only [Deed.written, List.append_nil]
    exact faithful.stay (fewer (by simp)) rfl
  | ship line count => exact faithful.ship line count (fewer (by simp)) rfl now
  | requeue =>
    simp only [Deed.written, List.append_nil]
    exact faithful.requeue (fewer (by simp)) now
  | dispatch frame =>
    simp only [Deed.written, List.append_nil]
    refine faithful.stay (fewer (by simp)) ?_
    simp only [Core.after]
    rcases core.dispatch_cases terms.signing frame with ⟨same, _⟩ | ⟨_, _, _, _, freed, _⟩
    · rw [same]
    · rw [freed]
  | sweep =>
    simp only [Deed.written, List.append_nil]
    refine faithful.rearrange (fewer (by simp)) ?_ ?_
    · simp only [Core.after, Core.frames_sweep]
      rw [← faithful.queue, List.filter_map]
      rfl
    · intro entry member
      exact faithful.queued entry (List.mem_of_mem_filter member)
  | teardown =>
    simp only [Deed.written, List.append_nil]
    exact faithful.rearrange (fewer (by simp)) rfl (by simp)

end Ledger

namespace Chronicle

variable [DecidableEq κ] (terms : Terms σ)

/-- The ledger of a chronicle agrees with its course. -/
def Faithful (chronicle : Chronicle κ σ) : Prop :=
  chronicle.ledger.Faithful chronicle.course.core chronicle.course.wires.accepted

theorem Faithful.turn {chronicle : Chronicle κ σ} (faithful : chronicle.Faithful)
    (orderly : chronicle.course.core.Orderly) (next : Turn κ σ) :
    (chronicle.turn terms next).Faithful := by
  obtain ⟨core, accepted⟩ := chronicle.course.turn_does terms next
  unfold Faithful Chronicle.turn
  simp only [core, accepted]
  exact Ledger.Faithful.follow terms faithful orderly _ _ _

/-- The ledger of a chronicle is faithful throughout. -/
theorem faithful_play (now : Instant) (time : Timestamp) (rest : σ) (turns : List (Turn κ σ)) :
    ((start terms now time rest).play terms turns).Faithful := by
  refine (play_keeps terms
    (fun chronicle => chronicle.course.core.Orderly ∧ chronicle.Faithful) ?_ _ turns ?_).2
  · rintro chronicle next ⟨orderly, faithful⟩
    refine ⟨?_, faithful.turn terms orderly next⟩
    change (chronicle.course.turn terms next).core.Orderly
    rw [(chronicle.course.turn_does terms next).1]
    exact orderly.after terms _ _ _
  · exact ⟨Core.orderly_empty _, Ledger.faithful_empty _⟩

end Chronicle

end Tether.Session
