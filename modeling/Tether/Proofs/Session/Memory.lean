import Tether.Proofs.Session.Readiness
import Tether.Transport.Duplex

/-! Both ends of a connection within a program are queues, so all that can arrive on one is what its
peer has sent, in order, and then the close by one end or the loss of the peer. A session over such
connections, its callers, its readers and the peers move in any order. -/

namespace Tether.Transport.Duplex

/-- Whether frames of the client are refused. -/
def Refuses (line : Duplex) : Prop := line.localClose.isSome = true ∨ line.peerGone = true

/-- A connection as far as its client can learn of it. -/
def inward (line : Duplex) : Duplex := { line with toPeer := [] }

theorem inward_eq_iff {line other : Duplex} :
    line.inward = other.inward ↔ line.toClient = other.toClient ∧
      line.localClose = other.localClose ∧ line.clientGone = other.clientGone ∧
        line.peerGone = other.peerGone := by
  simp [inward]

theorem refuses_congr {line other : Duplex} (same : line.inward = other.inward) :
    line.Refuses ↔ other.Refuses := by
  obtain ⟨_, closed, _, gone⟩ := inward_eq_iff.mp same
  unfold Refuses
  rw [closed, gone]

theorem send_cases (line : Duplex) (frame : Bytes) :
    ((line.send frame).1.isSome ↔ line.Refuses) ∧
      (line.send frame).2.inward = line.inward := by
  unfold send Refuses
  by_cases closed : line.localClose.isSome
  · simp [closed]
  · by_cases gone : line.peerGone
    · simp [closed, gone]
    · simp [closed, gone, inward]

theorem close_cases (line : Duplex) (code : UInt16) (reason : String) :
    (line.close code reason).toClient = line.toClient ∧
      (line.close code reason).clientGone = line.clientGone ∧
      (line.close code reason).peerGone = line.peerGone ∧
      (line.close code reason).localClose.isSome = true := by
  unfold close
  by_cases closed : line.localClose.isSome
  · simp [closed]
  · simp [closed]

/-- A peer that closes a connection leaves the close behind what it has sent. -/
theorem peerClose_cases {line : Duplex} (listens : line.clientGone = false) (code : UInt16)
    (reason : String) :
    (line.peerClose code reason).peerGone = true ∧
      (line.peerClose code reason).toClient =
        line.toClient ++ [.closed (.closed code reason)] := by
  simp [peerClose, dropPeer, listens]

theorem receive_cases {line next : Duplex} {incoming : Incoming}
    (received : line.receive = (some incoming, next)) :
    (line.localClose = none ∧ line.toClient = incoming :: next.toClient ∧
        next = { line with toClient := next.toClient }) ∨
      (next = line ∧ ∃ frame, incoming = .closed frame ∧
        (line.localClose.isSome = true ∨ line.peerGone = true ∧ line.toClient = [])) := by
  unfold receive at received
  split at received
  · rename_i frame closed
    cases received
    exact Or.inr ⟨rfl, frame, rfl, Or.inl (by simp [closed])⟩
  · rename_i going
    split at received
    · rename_i first rest arrived
      cases received
      exact Or.inl ⟨going, arrived, rfl⟩
    · rename_i nothing
      split at received
      · rename_i gone
        cases received
        exact Or.inr ⟨rfl, _, rfl, Or.inr ⟨gone, nothing⟩⟩
      · cases received

theorem receive_of_peerGone {line : Duplex} (gone : line.peerGone = true) :
    ∃ incoming next, line.receive = (some incoming, next) := by
  unfold receive
  split
  · exact ⟨_, _, rfl⟩
  · split
    · exact ⟨_, _, rfl⟩
    · rw [if_pos gone]
      exact ⟨_, _, rfl⟩

end Tether.Transport.Duplex

namespace Tether.Session

open Message (ClientMessage)
open Time (Instant Timestamp)
open Transport (ConnectionId Duplex Incoming TransportError)

variable {κ : Type}

/-- All connections, those included that were not opened yet. -/
abbrev Lines : Type := ConnectionId → Duplex

namespace Lines

def fresh : Lines := fun _ => .fresh

def change (lines : Lines) (id : ConnectionId) (effect : Duplex → Duplex) : Lines :=
  fun other => if other = id then effect (lines other) else lines other

@[simp] theorem change_self (lines : Lines) (id : ConnectionId) (effect : Duplex → Duplex) :
    lines.change id effect id = effect (lines id) := if_pos rfl

theorem change_of_ne (lines : Lines) {id other : ConnectionId} (effect : Duplex → Duplex)
    (apart : other ≠ id) : lines.change id effect other = lines other := if_neg apart

end Lines

def Port.memory : Port Lines where
  send id frame lines :=
    let (failure, line) := (lines id).send frame
    (failure, lines.change id fun _ => line)
  close id code reason lines := (none, lines.change id fun line => line.close code reason)

/-- Any settings and keys, over connections within a program. -/
def Terms.memory (settings : Settings) (signing : Signing) : Terms Lines :=
  ⟨settings, signing, .memory⟩

/-- What a peer can do while it is there. -/
inductive PeerAct where
  | send (frame : Bytes)
  | close (code : UInt16) (reason : String)
  /-- The peer looks for a frame. -/
  | read
  /-- The peer vanishes. -/
  | leave
  deriving DecidableEq

def PeerAct.effect (line : Duplex) : PeerAct → Duplex
  | .send frame => (line.peerSend frame).2
  | .close code reason => line.peerClose code reason
  | .read => line.peerRead.2
  | .leave => line.dropPeer

/-- What callers, attempts, readers, peers and the session itself can do. -/
inductive Move (κ : Type) where
  | submit (message : ClientMessage) (caller : κ)
  | notify (message : ClientMessage)
  | abandon (caller : κ)
  | tick (now : Instant) (time : Timestamp)
  | openLine (id : ConnectionId)
  | refuse (reason : String)
  /-- The reader of a connection looks for what has arrived. -/
  | look (id : ConnectionId)
  | peer (id : ConnectionId) (act : PeerAct)
  | take (choice : Choice)
  | proceed
  deriving DecidableEq

def report (id : ConnectionId) : Incoming → TransportEvent
  | .message frame => .message id frame
  | .closed frame => .closed id frame

def isEnd : Incoming → Bool
  | .message _ => false
  | .closed _ => true

theorem isResult_report (id : ConnectionId) (incoming : Incoming) :
    (report id incoming).isResult = false := by
  cases incoming <;> rfl

namespace Course

/-- What a reader does: it takes out what it finds and reports it. -/
def looking (course : Course κ Lines) (id : ConnectionId) : List (Turn κ Lines) :=
  match (course.wires.rest id).receive with
  | (none, _) => []
  | (some incoming, line) =>
    let arrives : Turn κ Lines :=
      match incoming with
      | .message frame => .arrive id frame
      | .closed frame => .hangUp id frame
    [.happen fun lines => lines.change id fun _ => line, arrives]

/-- The turns that a move consists of. Where there is no reader, or no peer any more, that is
nothing. -/
def turns (course : Course κ Lines) : Move κ → List (Turn κ Lines)
  | .submit message caller => [.submit message caller]
  | .notify message => [.notify message]
  | .abandon caller => [.abandon caller]
  | .tick now time => [.tick now time]
  | .openLine id => [.openLine id]
  | .refuse reason => [.refuse reason]
  | .look id => if id ∈ course.wires.readers then course.looking id else []
  | .peer id act =>
    if id ∈ course.wires.opened ∧ (course.wires.rest id).peerGone = false then
      [.happen fun lines => lines.change id fun line => act.effect line]
    else []
  | .take choice => [.take choice]
  | .proceed => [.proceed]

variable [DecidableEq κ] (terms : Terms Lines)

def move (course : Course κ Lines) (next : Move κ) : Course κ Lines :=
  course.play terms (course.turns next)

/-- What a move does to the books. Only callers and the session itself change them. -/
def moveDeed (course : Course κ Lines) : Move κ → Deed κ
  | .submit message caller => .submit message caller
  | .notify message => .notify message
  | .abandon caller => .abandon caller
  | .take choice => course.deed terms (.take choice)
  | .proceed => course.deed terms .proceed
  | _ => .nothing

/-- The course after the first so many moves of a schedule. -/
def moment (course : Course κ Lines) (schedule : Nat → Move κ) : Nat → Course κ Lines
  | 0 => course
  | count + 1 => (moment course schedule count).move terms (schedule count)

theorem moment_eq_play (course : Course κ Lines) (schedule : Nat → Move κ) (count : Nat) :
    ∃ turns, course.moment terms schedule count = course.play terms turns := by
  induction count with
  | zero => exact ⟨[], rfl⟩
  | succ count ih =>
    obtain ⟨turns, same⟩ := ih
    refine ⟨turns ++ (course.moment terms schedule count).turns (schedule count), ?_⟩
    rw [play_append, ← same]
    rfl

theorem move_look (course : Course κ Lines) {id : ConnectionId} {incoming : Incoming}
    {line : Duplex} (listens : id ∈ course.wires.readers)
    (received : (course.wires.rest id).receive = (some incoming, line)) :
    course.move terms (.look id) = course.withWires { course.wires with
      readers :=
        if isEnd incoming then course.wires.readers.filter (· ≠ id) else course.wires.readers
      reports := course.wires.reports ++ [report id incoming]
      rest := course.wires.rest.change id fun _ => line } := by
  have still : id ∈ (course.withWires { course.wires with
      rest := course.wires.rest.change id fun _ => line }).wires.readers := listens
  cases incoming with
  | message frame =>
    simp only [move, turns, listens, ↓reduceIte, looking, received, play, List.foldl_cons,
      List.foldl_nil, turn, read, still]
    rfl
  | closed frame =>
    simp only [move, turns, listens, ↓reduceIte, looking, received, play, List.foldl_cons,
      List.foldl_nil, turn, read, still]
    rfl

theorem move_look_of_not_mem (course : Course κ Lines) {id : ConnectionId}
    (gone : id ∉ course.wires.readers) : course.move terms (.look id) = course := by
  simp only [move, turns]
  rw [if_neg gone]
  rfl

theorem look_cases (course : Course κ Lines) (id : ConnectionId) :
    course.move terms (.look id) = course ∨
      ∃ incoming line, id ∈ course.wires.readers ∧
        (course.wires.rest id).receive = (some incoming, line) ∧
        course.move terms (.look id) = course.withWires { course.wires with
          readers :=
            if isEnd incoming then course.wires.readers.filter (· ≠ id) else course.wires.readers
          reports := course.wires.reports ++ [report id incoming]
          rest := course.wires.rest.change id fun _ => line } := by
  by_cases listens : id ∈ course.wires.readers
  · rcases received : (course.wires.rest id).receive with ⟨_ | incoming, line⟩
    · left
      simp only [move, turns, listens, ↓reduceIte, looking, received, play, List.foldl_nil]
    · exact Or.inr ⟨incoming, line, listens, rfl, course.move_look terms listens received⟩
  · exact Or.inl (course.move_look_of_not_mem terms listens)

theorem move_peer (course : Course κ Lines) {id : ConnectionId} (act : PeerAct)
    (opened : id ∈ course.wires.opened) (there : (course.wires.rest id).peerGone = false) :
    course.move terms (.peer id act) = course.withWires { course.wires with
      rest := course.wires.rest.change id fun line => act.effect line } := by
  simp only [move, turns]
  rw [if_pos ⟨opened, there⟩]
  rfl

theorem peer_cases (course : Course κ Lines) (id : ConnectionId) (act : PeerAct) :
    course.move terms (.peer id act) = course ∨
      (course.wires.rest id).peerGone = false ∧
        course.move terms (.peer id act) = course.withWires { course.wires with
          rest := course.wires.rest.change id fun line => act.effect line } := by
  by_cases there : id ∈ course.wires.opened ∧ (course.wires.rest id).peerGone = false
  · exact Or.inr ⟨there.2, course.move_peer terms act there.1 there.2⟩
  · left
    simp only [move, turns]
    rw [if_neg there]
    rfl

/-- Every move changes the books by what it does to them. -/
theorem core_move (course : Course κ Lines) (next : Move κ) :
    (course.move terms next).core =
      course.core.after terms course.now course.time (course.moveDeed terms next) := by
  have does (turn : Turn κ Lines) := (turn_does terms course turn).1
  cases next with
  | submit message caller => exact does (.submit message caller)
  | notify message => exact does (.notify message)
  | abandon caller => exact does (.abandon caller)
  | tick now time => exact does (.tick now time)
  | openLine id => exact does (.openLine id)
  | refuse reason => exact does (.refuse reason)
  | look id =>
    rcases course.look_cases terms id with same | ⟨_, _, _, _, looks⟩
    · rw [same]
      rfl
    · rw [looks]
      rfl
  | peer id act =>
    rcases course.peer_cases terms id act with same | ⟨_, acts⟩
    · rw [same]
      rfl
    · rw [acts]
      rfl
  | take choice => exact does (.take choice)
  | proceed => exact does .proceed

omit [DecidableEq κ] in
theorem moveDeed_eq_abandon {course : Course κ Lines} {next : Move κ} {caller : κ} :
    course.moveDeed terms next = .abandon caller ↔ next = .abandon caller := by
  constructor
  · intro abandons
    cases next with
    | abandon other =>
      cases abandons
      rfl
    | take choice =>
      simp only [moveDeed, deed] at abandons
      split at abandons
      · split at abandons
        · cases abandons
        · unfold Runner.flushDeed at abandons
          split at abandons <;> cases abandons
      · split at abandons <;> cases abandons
      · cases abandons
    | proceed =>
      simp only [moveDeed, deed] at abandons
      split at abandons
      · split at abandons
        · cases abandons
        · rename_i action _ _ _ _
          cases action with
          | flushQueue =>
            simp only [Runner.deed, Runner.flushDeed] at abandons
            split at abandons <;> cases abandons
          | _ => cases abandons
      · cases abandons
    | _ => cases abandons
  · rintro rfl
    rfl

end Course

/-- What every send and note keeps, a flush keeps, and where it fails a send failed. -/
theorem Outbox.sendFrames_keeps {σ : Type} {send : Bytes → σ → Option TransportError × σ}
    {note : QueuedFrame → σ → σ} (kept : σ → Prop)
    (sends : ∀ frame world, kept world → kept (send frame world).2)
    (notes : ∀ frame world, kept world → kept (note frame world)) (frames : List QueuedFrame)
    (world : σ) (holds : kept world) :
    kept (sendFrames send note frames world).2.2 ∧
      ∀ failure, (sendFrames send note frames world).1.failure = some failure →
        ∃ frame ∈ frames, ∃ earlier, kept earlier ∧
          (send frame.bytes earlier).1 = some failure := by
  induction frames generalizing world with
  | nil => exact ⟨holds, by simp [sendFrames]⟩
  | cons frame frames ih =>
    have after := sends frame.bytes world holds
    rcases sent : send frame.bytes world with ⟨_ | failure, next⟩
    · rw [sent] at after
      obtain ⟨last, failed⟩ := ih _ (notes frame next after)
      simp only [sendFrames, sent]
      refine ⟨last, ?_⟩
      intro failure fails
      obtain ⟨other, member, at'⟩ := failed failure fails
      exact ⟨other, List.mem_cons_of_mem _ member, at'⟩
    · rw [sent] at after
      simp only [sendFrames, sent]
      refine ⟨after, ?_⟩
      rintro other ⟨⟩
      exact ⟨frame, List.mem_cons_self, world, holds, by rw [sent]⟩

theorem Port.send_memory (line : ConnectionId) (frame : Bytes) (wires : Wires Lines) :
    ((Port.memory.carrier.send line frame wires).1.isSome ↔ (wires.rest line).Refuses) ∧
      ∀ id, ((Port.memory.carrier.send line frame wires).2.rest id).inward =
        (wires.rest id).inward := by
  obtain ⟨refused, kept⟩ := (wires.rest line).send_cases frame
  have others (id : ConnectionId) :
      (wires.rest.change line (fun _ => ((wires.rest line).send frame).2) id).inward =
        (wires.rest id).inward := by
    by_cases same : id = line
    · rw [same, Lines.change_self, kept]
    · rw [Lines.change_of_ne _ _ same]
  rcases sent : (wires.rest line).send frame with ⟨_ | failure, next⟩
  · rw [sent] at refused others
    simp only [Port.carrier, Port.memory, sent]
    exact ⟨refused, others⟩
  · rw [sent] at refused others
    simp only [Port.carrier, Port.memory, sent]
    exact ⟨refused, others⟩

namespace Core

variable (core : Core κ) (line : ConnectionId) (time : Timestamp) (wires : Wires Lines)

theorem flush_memory :
    (∀ id, ((core.flush (Port.memory.carrier.send line) time wires).2.2.rest id).inward =
        (wires.rest id).inward) ∧
      ((core.flush (Port.memory.carrier.send line) time wires).1.failure.isSome →
        core.outbox.frames ≠ [] ∧ (wires.rest line).Refuses) := by
  let kept (state : Registry κ × Wires Lines) : Prop :=
    ∀ id, (state.2.rest id).inward = (wires.rest id).inward
  obtain ⟨same, failed⟩ := @Outbox.sendFrames_keeps _
    (fun bytes state =>
      ((Port.memory.carrier.send line bytes state.2).1, state.1,
        (Port.memory.carrier.send line bytes state.2).2))
    (fun frame state => (state.1.markSent frame.id time, state.2))
    kept
    (fun frame state same id => ((Port.send_memory line frame state.2).2 id).trans (same id))
    (fun _ _ same => same)
    core.outbox.frames (core.registry, wires) (fun _ => rfl)
  refine ⟨same, ?_⟩
  intro fails
  obtain ⟨failure, fails⟩ := Option.isSome_iff_exists.mp fails
  obtain ⟨frame, member, state, same, refused⟩ := failed failure fails
  refine ⟨List.ne_nil_of_mem member, (Duplex.refuses_congr (same line)).mp ?_⟩
  apply (Port.send_memory line frame.bytes state.2).1.mp
  exact Option.isSome_iff_exists.mpr ⟨failure, refused⟩

theorem flush_of_refuses (refuses : (wires.rest line).Refuses) (waits : core.outbox.frames ≠ []) :
    (core.flush (Port.memory.carrier.send line) time wires).1.failure.isSome := by
  obtain ⟨frame, frames, queued⟩ := List.exists_cons_of_ne_nil waits
  have refused := (Port.send_memory line frame.bytes wires).1.mpr refuses
  rcases sent : Port.memory.carrier.send line frame.bytes wires with ⟨_ | failure, next⟩
  · rw [sent] at refused
    cases refused
  · simp [flush, Outbox.flush, queued, Outbox.sendFrames, sent]

end Core

namespace Runner

variable (terms : Terms Lines) (memory : terms.port = .memory) (now : Instant) (time : Timestamp)
  (runner : Runner κ (Wires Lines))

/-- Frames wait and are about to be written to a connection that refuses them. -/
def Balks : Prop :=
  ∃ line count, runner.flushDeed (terms.outside now time) = .ship line count ∧
    runner.core.outbox.frames ≠ [] ∧ (runner.world.rest line).Refuses

include memory

/-- A flush changes only what is on its way to a peer, and fails exactly if frames are refused. -/
theorem flush_memory :
    (∀ id, ((runner.flush (terms.outside now time)).1.world.rest id).inward =
        (runner.world.rest id).inward) ∧
      ((runner.flush (terms.outside now time)).2.isSome ↔ runner.Balks terms now time) ∧
      ∀ event, (runner.flush (terms.outside now time)).2 = some event →
        ∃ reason, event = .failed reason := by
  by_cases active : ∃ line, runner.lifecycle.state = .connected ∧ runner.connection = some line
  · obtain ⟨line, connected, current⟩ := active
    obtain ⟨same, fails⟩ := runner.core.flush_memory line time runner.world
    have refused := runner.core.flush_of_refuses line time runner.world
    simp only [Balks, flush, flushDeed, connected, current, Terms.outside_carrier, memory,
      Terms.outside_time]
    refine ⟨same, ?_, ?_⟩
    · rw [Option.isSome_map]
      constructor
      · exact fun failed => ⟨line, _, rfl, fails failed⟩
      · rintro ⟨_, _, ships, waits, refuses⟩
        cases ships
        exact refused refuses waits
    · intro event failed
      obtain ⟨failure, _, rfl⟩ := Option.map_eq_some_iff.mp failed
      exact ⟨_, rfl⟩
  · have idle : runner.flush (terms.outside now time) = (runner, none) ∧
        runner.flushDeed (terms.outside now time) = .nothing := by
      rcases Runner.flush_cases terms now time runner with
        idle | ⟨line, _, _, _, connected, current, _⟩
      · exact idle
      · exact absurd ⟨line, connected, current⟩ active
    simp [Balks, idle]

/-- An action changes nothing that arrives on connections, except that one may be closed. -/
theorem perform_memory (action : Action) :
    (∀ id, ((runner.perform (terms.outside now time) action).runner.world.rest id).inward =
        (runner.world.rest id).inward) ∨
      ∃ code reason line, action = .closeTransport code reason ∧
        runner.connection = some line ∧
        (runner.perform (terms.outside now time) action).runner.world.rest =
          runner.world.rest.change line fun line => line.close code reason := by
  cases action with
  | flushQueue => exact Or.inl (runner.flush_memory terms memory now time).1
  | closeTransport code reason =>
    cases current : runner.connection with
    | none => exact Or.inl (by simp [perform, close, current])
    | some line =>
      right
      refine ⟨code, reason, line, rfl, rfl, ?_⟩
      simp only [perform, close, current, Terms.outside_carrier, memory, Port.carrier, Port.memory]
  | scheduleReconnect delay =>
    left
    simp only [perform]
    split <;> exact fun _ => rfl
  | dropTransport =>
    left
    simp only [perform, dropTransport]
    split <;> exact fun _ => rfl
  | _ => exact Or.inl fun _ => rfl

end Runner

end Tether.Session
