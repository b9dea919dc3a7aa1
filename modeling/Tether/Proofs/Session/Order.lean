import Tether.Proofs.Session.Ledger
import Tether.Proofs.Session.Lines

/-! As long as no answer is handed out while a frame under its id is queued, the outbox is in the
order in which frames were handed in, and whatever was sent and not answered was handed in before
everything in it. So frames are first written in that order, and each connection takes the frames of
requests in it. It is not enough that the server answers in time: an answer may be handed out long
after it arrived. -/

namespace Tether.Session

open Time (Instant Timestamp)
open Transport (ConnectionId)

variable {κ σ : Type}

namespace Ledger

/-- Frames are first written in the order of their numbers: a writing repeats an earlier one, or its
frame comes after all that were written before. -/
def FirstsInOrder (writings : List Writing) : Prop :=
  ∀ earlier writing later, writings = earlier ++ writing :: later →
    (∃ again ∈ earlier, again.entry.number = writing.entry.number) ∨
      ∀ before ∈ earlier, before.entry.number < writing.entry.number

theorem FirstsInOrder.append {writings more : List Writing} (inOrder : FirstsInOrder writings)
    (increasing : more.Pairwise fun one other => one.entry.number < other.entry.number)
    (after : ∀ writing ∈ more,
      (∃ again ∈ writings, again.entry.number = writing.entry.number) ∨
        ∀ before ∈ writings, before.entry.number < writing.entry.number) :
    FirstsInOrder (writings ++ more) := by
  intro earlier writing later same
  rcases List.append_eq_append_iff.mp same with ⟨between, rfl, rest⟩ | ⟨between, rfl, rest⟩
  · rw [rest] at increasing after
    rcases after writing (by simp) with ⟨again, member, equal⟩ | past
    · exact Or.inl ⟨again, List.mem_append_left _ member, equal⟩
    · right
      intro before member
      rcases List.mem_append.mp member with old | new
      · exact past before old
      · exact (List.pairwise_append.mp increasing).2.2 before new writing List.mem_cons_self
  · cases between with
    | nil =>
      have there : writing ∈ more := by
        rw [← List.nil_append more, ← rest]
        exact List.mem_cons_self
      simpa using after writing there
    | cons first tail =>
      obtain ⟨rfl, _⟩ := List.cons_eq_cons.mp rest
      exact inOrder earlier writing tail rfl

/-- The ledger is in order. The session's connection is `line?`, if it has one. -/
structure InOrder (ledger : Ledger κ) (core : Core κ) (line? : Option ConnectionId) : Prop where
  queue : ledger.queue.Pairwise fun one other => one.number < other.number
  pending : (core.registry.pending.map Pending.id).Pairwise fun one other =>
    ledger.holder one < ledger.holder other
  /-- A queued frame of a request is the one of the latest request under its id. -/
  queued : ∀ entry ∈ ledger.queue, entry.frame.id ≠ .none →
    entry.number = ledger.holder entry.frame.id
  /-- What was sent and not answered comes before everything that is queued. -/
  sent : ∀ request ∈ core.registry.pending, request.sentAt.isSome →
    (∀ entry ∈ ledger.queue, ledger.holder request.id < entry.number) ∧
      ∃ writing ∈ ledger.writings, writing.entry.number = ledger.holder request.id
  /-- What is queued for the first time comes after everything that was written. -/
  first : ∀ entry ∈ ledger.queue,
    (∃ writing ∈ ledger.writings, writing.entry.number = entry.number) ∨
      ∀ writing ∈ ledger.writings, writing.entry.number < entry.number
  /-- What the connection has taken comes before everything that is queued. -/
  current : ∀ writing ∈ ledger.writings, line? = some writing.line →
    writing.entry.frame.id ≠ .none → ∀ entry ∈ ledger.queue, writing.entry.number < entry.number
  /-- A frame of no request is queued only until it is written. -/
  once : ∀ entry ∈ ledger.queue, entry.frame.id = .none →
    ∀ writing ∈ ledger.writings, writing.entry.number ≠ entry.number
  firsts : FirstsInOrder ledger.writings
  lines : ledger.writings.Pairwise fun earlier later => earlier.line = later.line →
    earlier.entry.frame.id ≠ .none → later.entry.frame.id ≠ .none →
      earlier.entry.number < later.entry.number
  single : ledger.writings.Pairwise fun earlier later => earlier.entry.frame.id = .none →
    earlier.entry.number ≠ later.entry.number

theorem inOrder_empty (capacity : Nat) (line? : Option ConnectionId) :
    (empty : Ledger κ).InOrder (.empty capacity) line? := by
  constructor <;> simp [empty, Core.empty, Registry.empty, FirstsInOrder]

variable {ledger : Ledger κ} {core next : Core κ} {line? : Option ConnectionId}

theorem InOrder.change_line (inOrder : ledger.InOrder core line?) {other? : Option ConnectionId}
    (unused : ∀ writing ∈ ledger.writings, other? = some writing.line → line? = some writing.line) :
    ledger.InOrder core other? :=
  { inOrder with
    current := fun writing member current =>
      inOrder.current writing member (unused writing member current) }

private theorem InOrder.shrink (inOrder : ledger.InOrder core line?)
    (ids : (next.registry.pending.map Pending.id).Sublist (core.registry.pending.map Pending.id))
    (requests : ∀ request ∈ next.registry.pending, request.sentAt.isSome →
      ∃ old ∈ core.registry.pending, old.id = request.id ∧ old.sentAt.isSome)
    {entries : List Entry} (fewer : entries.Sublist ledger.queue) :
    (tick { ledger with queue := entries }).InOrder next line? where
  queue := inOrder.queue.sublist fewer
  pending := inOrder.pending.sublist ids
  queued entry member := inOrder.queued entry (fewer.subset member)
  sent request waits noted := by
    obtain ⟨old, waited, same, noted⟩ := requests request waits noted
    obtain ⟨before, written⟩ := inOrder.sent old waited noted
    rw [same] at before written
    exact ⟨fun entry member => before entry (fewer.subset member), written⟩
  first entry member := inOrder.first entry (fewer.subset member)
  current writing member line proper entry queued :=
    inOrder.current writing member line proper entry (fewer.subset queued)
  once entry member := inOrder.once entry (fewer.subset member)
  firsts := inOrder.firsts
  lines := inOrder.lines
  single := inOrder.single

theorem Knows.number_lt {entry : Entry} (knows : ledger.Knows entry) :
    entry.number < ledger.submissions.length := by
  obtain ⟨_, there, _⟩ := knows
  exact (List.getElem?_eq_some_iff.mp there).1

private theorem InOrder.idle (inOrder : ledger.InOrder core line?) :
    ledger.tick.InOrder core line? :=
  inOrder.shrink (List.Sublist.refl _) (fun request waits noted => ⟨request, waits, rfl, noted⟩)
    (List.Sublist.refl _)

/-- A frame's number tells which frame it is. -/
theorem Knows.frame_eq {one other : Entry} (first : ledger.Knows one) (second : ledger.Knows other)
    (same : one.number = other.number) : one.frame = other.frame := by
  obtain ⟨submission, there, named⟩ := first
  obtain ⟨again, here, alike⟩ := second
  rw [same, here] at there
  rw [← named, ← alike, Option.some.inj there]

private theorem Faithful.queue_lt {accepted : List (ConnectionId × Bytes)}
    (faithful : ledger.Faithful core accepted) (entry : Entry) (member : entry ∈ ledger.queue) :
    entry.number < ledger.submissions.length :=
  (faithful.queued entry member).number_lt

private theorem Faithful.writings_lt {accepted : List (ConnectionId × Bytes)}
    (faithful : ledger.Faithful core accepted) (writing : Writing)
    (member : writing ∈ ledger.writings) : writing.entry.number < ledger.submissions.length :=
  (faithful.written writing member).number_lt

private theorem Faithful.holder_lt {accepted : List (ConnectionId × Bytes)}
    (faithful : ledger.Faithful core accepted) {request : Pending κ}
    (waits : request ∈ core.registry.pending) :
    ledger.holder request.id < ledger.submissions.length := by
  obtain ⟨_, there, _⟩ := faithful.holds request waits
  exact (List.getElem?_eq_some_iff.mp there).1

section Enter

variable (caller : Option κ) {frame : QueuedFrame}

private theorem holder_enter_of_ne {id : RequestId} (other : id ≠ frame.id) :
    (ledger.enter caller (some frame)).holder id = ledger.holder id :=
  if_neg other

private theorem holder_enter_self :
    (ledger.enter caller (some frame)).holder frame.id = ledger.submissions.length :=
  if_pos rfl

private theorem forall_mem_enter {holds : Entry → Prop}
    (older : ∀ entry ∈ ledger.queue, holds entry)
    (last : holds ⟨ledger.submissions.length, frame⟩) :
    ∀ entry ∈ (ledger.enter caller (some frame)).queue, holds entry := by
  intro entry member
  rcases List.mem_append.mp member with before | isLast
  · exact older entry before
  · rw [List.mem_singleton.mp isLast]
    exact last

variable {accepted : List (ConnectionId × Bytes)}

private theorem InOrder.pending_enter (inOrder : ledger.InOrder core line?)
    (faithful : ledger.Faithful core accepted) {more : Option (Pending κ)}
    (new : ∀ request ∈ more, request.id = frame.id)
    (waiting : ∀ request ∈ core.registry.pending, request.id ≠ frame.id) :
    ((core.registry.pending ++ more.toList).map Pending.id).Pairwise fun one other =>
      (ledger.enter caller (some frame)).holder one <
        (ledger.enter caller (some frame)).holder other := by
  rw [List.map_append]
  refine List.pairwise_append.mpr ⟨?_, ?_, ?_⟩
  · refine inOrder.pending.imp_of_mem ?_
    intro one other first second before
    obtain ⟨earlier, waits, rfl⟩ := List.mem_map.mp first
    obtain ⟨later, waitsToo, rfl⟩ := List.mem_map.mp second
    rw [holder_enter_of_ne caller (waiting earlier waits), holder_enter_of_ne caller (waiting later waitsToo)]
    exact before
  · cases more <;> simp
  · intro one first other second
    obtain ⟨earlier, waits, rfl⟩ := List.mem_map.mp first
    obtain ⟨later, isNew, rfl⟩ := List.mem_map.mp second
    rw [holder_enter_of_ne caller (waiting earlier waits), new later (Option.mem_toList.mp isNew),
      holder_enter_self]
    exact faithful.holder_lt waits

private theorem InOrder.queued_enter (inOrder : ledger.InOrder core line?)
    (absent : frame.id ≠ .none → ∀ entry ∈ ledger.queue, entry.frame.id ≠ frame.id) :
    ∀ entry ∈ (ledger.enter caller (some frame)).queue, entry.frame.id ≠ .none →
      entry.number = (ledger.enter caller (some frame)).holder entry.frame.id := by
  refine forall_mem_enter caller ?_ fun _ => (holder_enter_self caller).symm
  intro entry older proper
  by_cases clash : entry.frame.id = frame.id
  · exact absurd clash (absent (clash ▸ proper) entry older)
  · rw [holder_enter_of_ne caller clash]
    exact inOrder.queued entry older proper

private theorem InOrder.sent_enter (inOrder : ledger.InOrder core line?)
    (faithful : ledger.Faithful core accepted) {more : Option (Pending κ)}
    (unsent : ∀ request ∈ more, request.sentAt = none)
    (waiting : ∀ request ∈ core.registry.pending, request.id ≠ frame.id) :
    ∀ request ∈ core.registry.pending ++ more.toList, request.sentAt.isSome →
      (∀ entry ∈ (ledger.enter caller (some frame)).queue,
        (ledger.enter caller (some frame)).holder request.id < entry.number) ∧
      ∃ writing ∈ ledger.writings, writing.entry.number =
        (ledger.enter caller (some frame)).holder request.id := by
  intro request waits noted
  rcases List.mem_append.mp waits with waited | isNew
  · obtain ⟨before, written⟩ := inOrder.sent request waited noted
    rw [holder_enter_of_ne caller (waiting request waited)]
    exact ⟨forall_mem_enter caller before (faithful.holder_lt waited), written⟩
  · rw [unsent request (Option.mem_toList.mp isNew)] at noted
    cases noted

/-- A new frame comes behind all others, and a new request may wait for it. -/
private theorem InOrder.enter (inOrder : ledger.InOrder core line?)
    (faithful : ledger.Faithful core accepted) (more : Option (Pending κ))
    (pending : next.registry.pending = core.registry.pending ++ more.toList)
    (new : ∀ request ∈ more, request.id = frame.id ∧ request.sentAt = none)
    (waiting : ∀ request ∈ core.registry.pending, request.id ≠ frame.id)
    (absent : frame.id ≠ .none → ∀ entry ∈ ledger.queue, entry.frame.id ≠ frame.id) :
    (ledger.enter caller (some frame)).tick.InOrder next line? where
  queue := by
    refine List.pairwise_append.mpr ⟨inOrder.queue, List.pairwise_singleton _ _, ?_⟩
    intro entry member last isLast
    rw [List.mem_singleton.mp isLast]
    exact faithful.queue_lt entry member
  pending := by
    rw [pending]
    exact inOrder.pending_enter caller faithful (fun request isNew => (new request isNew).1) waiting
  queued := inOrder.queued_enter caller absent
  sent := by
    rw [pending]
    exact inOrder.sent_enter caller faithful (fun request isNew => (new request isNew).2) waiting
  first := forall_mem_enter caller inOrder.first (Or.inr faithful.writings_lt)
  current writing member current proper :=
    forall_mem_enter caller (inOrder.current writing member current proper)
      (faithful.writings_lt writing member)
  once := by
    refine forall_mem_enter caller inOrder.once ?_
    intro _ writing member
    exact Nat.ne_of_lt (faithful.writings_lt writing member)
  firsts := inOrder.firsts
  lines := inOrder.lines
  single := inOrder.single

end Enter

section Ship

variable {line : ConnectionId} {accepted : List (ConnectionId × Bytes)}

private theorem InOrder.take_lt_drop (inOrder : ledger.InOrder core line?) (count : Nat) :
    ∀ entry ∈ ledger.queue.take count, ∀ other ∈ ledger.queue.drop count,
      entry.number < other.number := by
  have apart := inOrder.queue
  rw [← List.take_append_drop count ledger.queue] at apart
  exact (List.pairwise_append.mp apart).2.2

private theorem InOrder.shipped (inOrder : ledger.InOrder core line?) (line : ConnectionId)
    (count : Nat) :
    (∀ writing ∈ (ledger.queue.take count).map (Writing.mk line),
      writing.line = line ∧ writing.entry ∈ ledger.queue.take count) ∧
    ((ledger.queue.take count).map (Writing.mk line)).Pairwise
      fun one other => one.entry.number < other.entry.number := by
  constructor
  · intro writing member
    obtain ⟨entry, taken, rfl⟩ := List.mem_map.mp member
    exact ⟨rfl, taken⟩
  · exact List.pairwise_map.mpr (inOrder.queue.sublist (List.take_sublist _ _))

/-- A request whose frame is written was handed in before everything that is left. -/
private theorem InOrder.sent_ship (inOrder : ledger.InOrder core line?)
    (faithful : ledger.Faithful core accepted) (orderly : core.Orderly) (line : ConnectionId)
    (count : Nat) (time : Timestamp) :
    ∀ request ∈ (core.ship count time).registry.pending, request.sentAt.isSome →
      (∀ entry ∈ ledger.queue.drop count, ledger.holder request.id < entry.number) ∧
      ∃ writing ∈ ledger.writings ++ (ledger.queue.take count).map (Writing.mk line),
        writing.entry.number = ledger.holder request.id := by
  intro request waits noted
  obtain ⟨old, waited, rfl⟩ := List.mem_map.mp waits
  by_cases goesOut : old.id ∈ (core.outbox.frames.take count).map QueuedFrame.id
  · rw [if_pos goesOut]
    rw [← faithful.queue, ← List.map_take, List.map_map] at goesOut
    obtain ⟨entry, taken, same⟩ := List.mem_map.mp goesOut
    change entry.frame.id = old.id at same
    have number := inOrder.queued entry (List.mem_of_mem_take taken)
      (same ▸ orderly.registry.id_ne_none waited)
    rw [same] at number
    change (∀ other ∈ ledger.queue.drop count, ledger.holder old.id < other.number) ∧ _
    rw [← number]
    refine ⟨inOrder.take_lt_drop count entry taken, ⟨line, entry⟩, ?_, rfl⟩
    exact List.mem_append_right _ (List.mem_map_of_mem taken)
  · rw [if_neg goesOut] at noted ⊢
    obtain ⟨past, writing, taken, number⟩ := inOrder.sent old waited noted
    exact ⟨fun entry member => past entry (List.mem_of_mem_drop member), writing,
      List.mem_append_left _ taken, number⟩

private theorem InOrder.first_ship (inOrder : ledger.InOrder core line?) (line : ConnectionId)
    (count : Nat) :
    ∀ entry ∈ ledger.queue.drop count,
      (∃ writing ∈ ledger.writings ++ (ledger.queue.take count).map (Writing.mk line),
        writing.entry.number = entry.number) ∨
      ∀ writing ∈ ledger.writings ++ (ledger.queue.take count).map (Writing.mk line),
        writing.entry.number < entry.number := by
  intro entry member
  rcases inOrder.first entry (List.mem_of_mem_drop member) with ⟨writing, taken, number⟩ | past
  · exact Or.inl ⟨writing, List.mem_append_left _ taken, number⟩
  · right
    intro writing taken
    rcases List.mem_append.mp taken with old | new
    · exact past writing old
    · exact inOrder.take_lt_drop count _ ((inOrder.shipped line count).1 writing new).2 entry member

private theorem InOrder.lines_ship (inOrder : ledger.InOrder core line?)
    (current : line? = some line) (count : Nat) :
    (ledger.writings ++ (ledger.queue.take count).map (Writing.mk line)).Pairwise
      fun earlier later => earlier.line = later.line →
        earlier.entry.frame.id ≠ .none → later.entry.frame.id ≠ .none →
          earlier.entry.number < later.entry.number := by
  obtain ⟨shipped, increasing⟩ := inOrder.shipped line count
  refine List.pairwise_append.mpr ⟨inOrder.lines, ?_, ?_⟩
  · exact increasing.imp fun less _ _ _ => less
  · intro writing old later new same proper _
    obtain ⟨onLine, taken⟩ := shipped later new
    exact inOrder.current writing old (current.trans (by rw [same, onLine])) proper _
      (List.mem_of_mem_take taken)

private theorem InOrder.single_ship (inOrder : ledger.InOrder core line?)
    (faithful : ledger.Faithful core accepted) (line : ConnectionId) (count : Nat) :
    (ledger.writings ++ (ledger.queue.take count).map (Writing.mk line)).Pairwise
      fun earlier later => earlier.entry.frame.id = .none →
        earlier.entry.number ≠ later.entry.number := by
  obtain ⟨shipped, increasing⟩ := inOrder.shipped line count
  refine List.pairwise_append.mpr ⟨inOrder.single, ?_, ?_⟩
  · refine increasing.imp ?_
    intro one other less _
    exact Nat.ne_of_lt less
  · intro writing old later new zero same
    have taken := List.mem_of_mem_take (shipped later new).2
    have frame := (faithful.written writing old).frame_eq (faithful.queued _ taken) same
    exact inOrder.once _ taken (frame ▸ zero) writing old same

/-- What a flush writes comes after all that the connection took before. -/
private theorem InOrder.ship (inOrder : ledger.InOrder core line?)
    (faithful : ledger.Faithful core accepted) (orderly : core.Orderly)
    (current : line? = some line) (count : Nat) (now : Instant) (time : Timestamp) :
    (ledger.follow core (core.ship count time) now (.ship line count)).tick.InOrder
      (core.ship count time) line? where
  queue := inOrder.queue.sublist (List.drop_sublist _ _)
  pending := by
    have ids : (core.ship count time).registry.pending.map Pending.id =
        core.registry.pending.map Pending.id := by
      refine Registry.ids_map (fun request => ?_) core.registry.pending
      split <;> rfl
    rw [ids]
    exact inOrder.pending
  queued entry member := inOrder.queued entry (List.mem_of_mem_drop member)
  sent := inOrder.sent_ship faithful orderly line count time
  first := inOrder.first_ship line count
  current writing taken onLine proper entry member := by
    rcases List.mem_append.mp taken with old | new
    · exact inOrder.current writing old onLine proper entry (List.mem_of_mem_drop member)
    · exact inOrder.take_lt_drop count _ ((inOrder.shipped line count).1 writing new).2 entry member
  once entry member zero writing taken := by
    rcases List.mem_append.mp taken with old | new
    · exact inOrder.once entry (List.mem_of_mem_drop member) zero writing old
    · exact Nat.ne_of_lt
        (inOrder.take_lt_drop count _ ((inOrder.shipped line count).1 writing new).2 entry member)
  firsts := by
    obtain ⟨shipped, increasing⟩ := inOrder.shipped line count
    refine inOrder.firsts.append increasing ?_
    intro writing new
    exact inOrder.first _ (List.mem_of_mem_take (shipped writing new).2)
  lines := inOrder.lines_ship current count
  single := inOrder.single_ship faithful line count

end Ship

private theorem mem_returned {entry : Entry} (member : entry ∈ ledger.returned core.registry) :
    ∃ request ∈ core.registry.pending, request.sentAt.isSome ∧
      entry.number = ledger.holder request.id ∧ entry.frame.id = request.id := by
  obtain ⟨_, unanswered, rfl⟩ := List.mem_map.mp member
  obtain ⟨request, noted, rfl⟩ := List.mem_map.mp unanswered
  obtain ⟨waits, sent⟩ := List.mem_filter.mp noted
  exact ⟨request, waits, sent, rfl, rfl⟩

/-- What is put back comes before everything that was queued, and the connection is gone. -/
private theorem InOrder.requeue (inOrder : ledger.InOrder core none)
    (orderly : core.Orderly) (now : Instant) :
    (ledger.follow core core.requeueUnanswered now .requeue).tick.InOrder
      core.requeueUnanswered none where
  queue := by
    refine List.pairwise_append.mpr ⟨?_, inOrder.queue, ?_⟩
    · rw [returned, Registry.unanswered, List.map_map, List.pairwise_map]
      exact (List.pairwise_map.mp inOrder.pending).sublist List.filter_sublist
    · intro entry member other queued
      obtain ⟨request, waits, sent, number, _⟩ := mem_returned member
      rw [number]
      exact (inOrder.sent request waits sent).1 other queued
  pending := by
    have ids : core.requeueUnanswered.registry.pending.map Pending.id =
        core.registry.pending.map Pending.id := by
      refine Registry.ids_map (fun request => ?_) core.registry.pending
      rfl
    rw [ids]
    exact inOrder.pending
  queued entry member proper := by
    rcases List.mem_append.mp member with returns | older
    · obtain ⟨request, _, _, number, same⟩ := mem_returned returns
      rw [same]
      exact number
    · exact inOrder.queued entry older proper
  sent request waits noted := by
    obtain ⟨old, _, rfl⟩ := List.mem_map.mp waits
    cases noted
  first entry member := by
    rcases List.mem_append.mp member with returns | older
    · obtain ⟨request, waits, sent, number, _⟩ := mem_returned returns
      rw [number]
      exact Or.inl (inOrder.sent request waits sent).2
    · exact inOrder.first entry older
  current _ _ impossible := by cases impossible
  once entry member zero writing taken := by
    rcases List.mem_append.mp member with returns | older
    · obtain ⟨request, waits, _, _, same⟩ := mem_returned returns
      exact absurd (same.symm.trans zero) (orderly.registry.id_ne_none waits)
    · exact inOrder.once entry older zero writing taken
  firsts := inOrder.firsts
  lines := inOrder.lines
  single := inOrder.single

variable (terms : Terms σ)

private theorem InOrder.submit (inOrder : ledger.InOrder core line?)
    {accepted : List (ConnectionId × Bytes)} (faithful : ledger.Faithful core accepted)
    (orderly : core.Orderly) (consistent : core.Consistent) (now : Instant)
    (message : Message.ClientMessage) (caller : κ) :
    (ledger.follow core (core.submit terms.signing terms.settings now message caller).2 now
      (.submit message caller)).tick.InOrder
      (core.submit terms.signing terms.settings now message caller).2 line? := by
  rcases core.submit_admits_or terms.signing terms.settings now message caller with
    ⟨id, taken, deadline, frame, allocated, _, same⟩ | ⟨same, fewer⟩
  · obtain ⟨proper, fresh⟩ := Registry.allocate_fresh allocated
    obtain ⟨_, rfl⟩ := Registry.allocate_eq_ok allocated
    rw [same]
    simp only [follow, List.getElem?_concat_length]
    refine inOrder.enter (some caller) faithful (some _) rfl ?_ ?_ ?_
    · intro request isNew
      cases isNew
      exact ⟨rfl, rfl⟩
    · exact orderly.registry.vacant fresh
    · intro _ entry member
      have queued : entry.frame ∈ core.outbox.frames := faithful.queue ▸ List.mem_map_of_mem member
      exact consistent.unqueued orderly proper fresh entry.frame queued
  · simp only [follow, same, List.getElem?_length, Ledger.enter]
    refine inOrder.shrink (fewer.map _) ?_ (List.Sublist.refl _)
    exact fun request waits noted => ⟨request, fewer.subset waits, rfl, noted⟩

private theorem InOrder.notify (inOrder : ledger.InOrder core line?)
    {accepted : List (ConnectionId × Bytes)} (faithful : ledger.Faithful core accepted)
    (orderly : core.Orderly) (now : Instant) {message : Message.ClientMessage}
    (notified : core.notify terms.signing message = .ok next) :
    (ledger.follow core next now (.notify message)).tick.InOrder next line? := by
  obtain ⟨frame, _, rfl⟩ := Core.notify_eq_ok notified
  simp only [follow, List.getElem?_concat_length]
  refine inOrder.enter none faithful none (List.append_nil _).symm (by simp) ?_ ?_
  · exact fun request waits => orderly.registry.id_ne_none waits
  · exact fun improper => absurd rfl improper

private theorem InOrder.abandon [DecidableEq κ] (inOrder : ledger.InOrder core line?) (caller : κ) :
    ledger.tick.InOrder { core with registry := core.registry.abandon caller } line? := by
  have same : (core.registry.abandon caller).pending.map Pending.id =
      core.registry.pending.map Pending.id := by
    refine Registry.ids_map (fun request => ?_) core.registry.pending
    split <;> rfl
  refine inOrder.shrink (by rw [same]) ?_ (List.Sublist.refl _)
  intro request waits noted
  obtain ⟨old, waited, rfl⟩ := List.mem_map.mp waits
  refine ⟨old, waited, ?_⟩
  split at noted
  · exact ⟨by split <;> rfl, noted⟩
  · exact ⟨by split <;> rfl, noted⟩

/-- Every deed keeps the ledger in order, if registry and outbox are consistent. -/
theorem InOrder.follow [DecidableEq κ] (inOrder : ledger.InOrder core line?)
    {accepted : List (ConnectionId × Bytes)} (faithful : ledger.Faithful core accepted)
    (orderly : core.Orderly) (consistent : core.Consistent) (now : Instant) (time : Timestamp)
    (deed : Deed κ) (ships : ∀ line count, deed = .ship line count → line? = some line)
    (requeues : deed = .requeue → line? = none) :
    (ledger.follow core (core.after terms now time deed) now deed).tick.InOrder
      (core.after terms now time deed) line? := by
  cases deed with
  | nothing => exact inOrder.idle
  | submit message caller =>
    exact inOrder.submit terms faithful orderly consistent now message caller
  | notify message =>
    cases notified : core.notify terms.signing message with
    | ok next =>
      simp only [Core.after, notified]
      exact inOrder.notify terms faithful orderly now notified
    | error cause =>
      simp only [Core.after, notified, Ledger.follow, Ledger.enter, List.getElem?_length]
      exact inOrder.idle
  | abandon caller => exact inOrder.abandon caller
  | ship line count => exact inOrder.ship faithful orderly (ships line count rfl) count now time
  | requeue =>
    obtain rfl := requeues rfl
    exact inOrder.requeue orderly now
  | dispatch frame =>
    simp only [Core.after]
    rcases core.dispatch_cases terms.signing frame with ⟨same, _⟩ | ⟨_, _, _, _, freed, _⟩
    · rw [same]
      exact inOrder.idle
    · rw [freed]
      refine inOrder.shrink (List.filter_sublist.map _) ?_ (List.Sublist.refl _)
      exact fun request waits noted => ⟨request, List.mem_of_mem_filter waits, rfl, noted⟩
  | sweep =>
    refine inOrder.shrink ?_ ?_ List.filter_sublist
    · simp only [Core.after, Core.pending_sweep]
      exact List.filter_sublist.map _
    · intro request waits noted
      simp only [Core.after, Core.pending_sweep] at waits
      exact ⟨request, List.mem_of_mem_filter waits, rfl, noted⟩
  | teardown =>
    have gone : (core.after terms now time .teardown).registry.pending = [] :=
      Registry.pending_rejectAll core.registry .closed
    refine inOrder.shrink ?_ ?_ (List.nil_sublist _)
    · rw [gone]
      exact List.nil_sublist _
    · intro request waits
      rw [gone] at waits
      cases waits

end Ledger

namespace Chronicle

variable [DecidableEq κ] (terms : Terms σ)

def InOrder (chronicle : Chronicle κ σ) : Prop :=
  chronicle.ledger.InOrder chronicle.course.core chronicle.course.runner.connection

theorem InOrder.turn {chronicle : Chronicle κ σ} (inOrder : chronicle.InOrder)
    (faithful : chronicle.Faithful) (orderly : chronicle.course.core.Orderly)
    (consistent : chronicle.course.core.Consistent) (sound : chronicle.course.Sound)
    (lined : chronicle.course.Lined) (next : Turn κ σ) : (chronicle.turn terms next).InOrder := by
  have followed := Ledger.InOrder.follow terms inOrder faithful orderly consistent
    chronicle.course.now chronicle.course.time (chronicle.course.deed terms next)
    (fun line count ships => (Course.deed_eq_ship terms ships).2.1)
    (fun requeues => sound.connection_of_requeue terms requeues)
  have after := faithful.turn terms orderly next
  unfold InOrder
  have core := (chronicle.course.turn_does terms next).1
  have kept : (chronicle.turn terms next).ledger.InOrder (chronicle.turn terms next).course.core
      chronicle.course.runner.connection := by
    change Ledger.InOrder _ (chronicle.course.turn terms next).core _
    rw [core]
    exact followed
  refine kept.change_line ?_
  intro writing member current
  by_contra new
  refine lined.unused_of_new terms next current new writing.entry.frame.bytes ?_
  change _ ∈ (chronicle.turn terms next).course.wires.accepted
  rw [← after.writings]
  exact List.mem_map.mpr ⟨writing, member, rfl⟩

/-- The ledger is in order throughout a course in which every answer is handed out in time. -/
theorem inOrder_play (now : Instant) (time : Timestamp) (rest : σ) (turns : List (Turn κ σ))
    (timely : (Course.start terms now time rest).Timely terms turns) (count : Nat) :
    ((start terms now time rest).play terms (turns.take count)).InOrder := by
  refine Turn.take_induction turns count ?_ ?_
  · exact Ledger.inOrder_empty _ _
  · intro count next _ inOrder
    have course : ((start terms now time rest).play terms (turns.take count)).course =
      (Course.start terms now time rest).play terms (turns.take count) := course_play terms _ _
    rw [play_concat]
    refine inOrder.turn terms (faithful_play terms now time rest _) ?_ ?_ ?_ ?_ next
    · rw [course]
      exact Course.orderly_play terms now time rest _
    · rw [course]
      exact Course.consistent_of_timely terms now time rest timely count
    · rw [course]
      exact Course.sound_play terms now time rest _
    · rw [course]
      exact Course.lined_play terms now time rest _

/-- If no answer is handed out while a frame under its id is queued, frames are first written in the
order in which they were handed in; each connection takes the frames of requests in that order, and
none of them twice; and a frame of no request is written at most once. -/
theorem first_come_first_sent (now : Instant) (time : Timestamp) (rest : σ)
    (turns : List (Turn κ σ)) (timely : (Course.start terms now time rest).Timely terms turns) :
    ((start terms now time rest).play terms turns).Faithful ∧
      Ledger.FirstsInOrder ((start terms now time rest).play terms turns).ledger.writings ∧
      (((start terms now time rest).play terms turns).ledger.writings.Pairwise
        fun earlier later => earlier.line = later.line →
          earlier.entry.frame.id ≠ .none → later.entry.frame.id ≠ .none →
            earlier.entry.number < later.entry.number) ∧
      ((start terms now time rest).play terms turns).ledger.writings.Pairwise
        fun earlier later => earlier.entry.frame.id = .none →
          earlier.entry.number ≠ later.entry.number := by
  have inOrder := inOrder_play terms now time rest turns timely turns.length
  rw [List.take_length] at inOrder
  exact ⟨faithful_play terms now time rest turns, inOrder.firsts, inOrder.lines, inOrder.single⟩

/-- Two requests and a message are sent, one request is answered, the connection is lost, and the
other request is sent again on the next one. -/
def resent : List (Turn Nat Unit) :=
  [.proceed, .proceed, .proceed, .openLine ⟨1⟩, .take .report, .proceed, .proceed, .proceed,
    .submit .ping 0, .notify .ping, .submit .ping 1, .take .flush, .arrive ⟨1⟩ [0, 0, 1],
    .take .report, .proceed, .proceed, .proceed, .breakLine ⟨1⟩ "gone", .take .report, .proceed,
    .proceed, .proceed, .proceed, .proceed, .tick ⟨10000000000⟩ ⟨10000⟩, .take .delay, .proceed,
    .proceed, .proceed, .openLine ⟨2⟩, .take .report, .proceed, .proceed, .proceed]

/-- The request that is sent again counts once, and comes on both connections. -/
theorem first_come_first_sent_resent :
    (Course.start Terms.plain ⟨0⟩ ⟨0⟩ ()).Timely Terms.plain resent ∧
      (((start Terms.plain ⟨0⟩ ⟨0⟩ ()).play Terms.plain resent).ledger.writings.map
          fun writing => (writing.line.number, writing.entry.number)) =
        [(1, 0), (1, 1), (1, 2), (2, 2)] ∧
      ((start Terms.plain ⟨0⟩ ⟨0⟩ ()).play Terms.plain resent).Faithful ∧
      Ledger.FirstsInOrder
        ((start Terms.plain ⟨0⟩ ⟨0⟩ ()).play Terms.plain resent).ledger.writings ∧
      (((start Terms.plain ⟨0⟩ ⟨0⟩ ()).play Terms.plain resent).ledger.writings.Pairwise
        fun earlier later => earlier.line = later.line →
          earlier.entry.frame.id ≠ .none → later.entry.frame.id ≠ .none →
            earlier.entry.number < later.entry.number) ∧
      ((start Terms.plain ⟨0⟩ ⟨0⟩ ()).play Terms.plain resent).ledger.writings.Pairwise
        fun earlier later => earlier.entry.frame.id = .none →
          earlier.entry.number ≠ later.entry.number := by
  have timely : (Course.start Terms.plain ⟨0⟩ ⟨0⟩ ()).Timely Terms.plain resent := by decide
  exact ⟨timely, rfl, first_come_first_sent Terms.plain ⟨0⟩ ⟨0⟩ () resent timely⟩

end Chronicle

/-- What would be done to the books if every frame were handed out at once. -/
def Turn.arrival : Turn κ σ → Deed κ
  | .arrive _ frame => .dispatch frame
  | _ => .nothing

namespace Course

variable [DecidableEq κ] (terms : Terms σ)

/-- The server never answers under an id while a frame under it is queued. The session may hand an
answer out long after it arrived, and find other frames queued by then. -/
def Patient (course : Course κ σ) (turns : List (Turn κ σ)) : Prop :=
  ∀ count next, turns[count]? = some next →
    ¬ (course.play terms (turns.take count)).core.Premature next.arrival

instance (course : Course κ σ) (turns : List (Turn κ σ)) :
    Decidable (course.Patient terms turns) :=
  decidableTurns terms (fun course next => ¬ course.core.Premature next.arrival) course turns

end Course

namespace Chronicle

/-- Plain terms under which the third frame that is sent does not get through. -/
def faltering : Terms Nat where
  settings := .standard
  signing := Terms.plain.signing
  port := ⟨fun _ _ sent => (if sent = 2 then some (.sendFailed "reset") else none, sent + 1),
    fun _ _ _ sent => (none, sent)⟩

/-- Each id but the one that was given last is taken once, by a query that nothing can sign. -/
def round : List (Turn Nat Nat) := List.replicate 254 (.submit .decayQuery 1)

def answered : List (Turn Nat Nat) :=
  [.proceed, .proceed, .proceed, .openLine ⟨1⟩, .take .report, .proceed, .proceed, .proceed,
    .submit .ping 0, .take .flush, .arrive ⟨1⟩ [0, 0, 1]]

/-- The caller has given up by then, so the ping ends with a sweep. Another ping gets its id and is
queued when the answer is handed out, and a third one gets it again, behind a message. The
connection takes one more frame before it fails. -/
def overtaken : List (Turn Nat Nat) :=
  answered ++ [.abandon 0, .take .sweep] ++ round ++
  [.submit .ping 2, .take .report, .proceed, .proceed, .proceed] ++ round ++
  [.notify .ping, .submit .ping 3, .take .flush, .proceed, .proceed, .proceed, .proceed, .proceed,
    .tick ⟨10000000000⟩ ⟨10000⟩, .take .delay, .proceed, .proceed, .proceed, .openLine ⟨2⟩,
    .take .report, .proceed, .proceed, .proceed]

/-- What connections take then, with numbers in the order in which callers handed in. -/
def takenOvertaken : List Writing :=
  [⟨⟨1⟩, 0, ⟨⟨1⟩, [0, 0, 1]⟩⟩, ⟨⟨1⟩, 1, ⟨⟨1⟩, [0, 0, 1]⟩⟩, ⟨⟨2⟩, 3, ⟨⟨1⟩, [0, 0, 1]⟩⟩,
    ⟨⟨2⟩, 2, ⟨.none, [0, 0, 0]⟩⟩, ⟨⟨2⟩, 3, ⟨⟨1⟩, [0, 0, 1]⟩⟩]

/-- The second ping is written without a request, and the third one is taken for sent in its place.
So the next connection takes the third one twice, and before the message that came in first. -/
theorem frames_overtake :
    (Course.start faltering ⟨0⟩ ⟨0⟩ 0).Patient faltering overtaken ∧
      ((start faltering ⟨0⟩ ⟨0⟩ 0).play faltering overtaken).Faithful ∧
      ¬ Ledger.FirstsInOrder
        ((start faltering ⟨0⟩ ⟨0⟩ 0).play faltering overtaken).ledger.writings ∧
      ¬ ((start faltering ⟨0⟩ ⟨0⟩ 0).play faltering overtaken).ledger.writings.Pairwise
        fun earlier later => earlier.line = later.line →
          earlier.entry.frame.id ≠ .none → later.entry.frame.id ≠ .none →
            earlier.entry.number < later.entry.number := by
  have patient : (Course.start faltering ⟨0⟩ ⟨0⟩ 0).Patient faltering overtaken := by
    decide +kernel
  have taken : ((start faltering ⟨0⟩ ⟨0⟩ 0).play faltering overtaken).ledger.writings =
      takenOvertaken := by
    decide +kernel
  refine ⟨patient, faithful_play faltering ⟨0⟩ ⟨0⟩ 0 overtaken, ?_, ?_⟩
  · intro inOrder
    rw [taken] at inOrder
    exact absurd (inOrder (takenOvertaken.take 3) _ (takenOvertaken.drop 4) rfl) (by decide)
  · rw [taken]
    decide

end Chronicle

end Tether.Session
