import Tether.Proofs.Session.Memory
import Tether.Proofs.Session.Progress

namespace Tether.Transport

open Session (PeerAct)

/-- What can have happened to a connection meanwhile. -/
structure Duplex.Precedes (line next : Duplex) : Prop where
  client : next.clientGone = line.clientGone
  gone : line.peerGone = true → next.peerGone = true
  closed : line.localClose.isSome = true → next.localClose.isSome = true
  /-- A peer that closes a connection lets go of it. -/
  ends : ∀ frame, .closed frame ∈ next.toClient →
    .closed frame ∈ line.toClient ∨ next.peerGone = true

namespace Duplex

variable {line next : Duplex}

theorem precedes_of_inward (same : next.inward = line.inward) : line.Precedes next := by
  obtain ⟨arrived, closed, client, gone⟩ := inward_eq_iff.mp same
  refine ⟨client, ?_, ?_, ?_⟩
  · rw [gone]
    exact id
  · rw [closed]
    exact id
  · rw [arrived]
    exact fun _ => Or.inl

theorem precedes_close (line : Duplex) (code : UInt16) (reason : String) :
    line.Precedes (line.close code reason) := by
  obtain ⟨arrived, client, gone, closed⟩ := line.close_cases code reason
  refine ⟨client, ?_, fun _ => closed, ?_⟩
  · rw [gone]
    exact id
  · rw [arrived]
    exact fun _ => Or.inl

theorem precedes_receive {incoming : Incoming} (received : line.receive = (some incoming, next)) :
    line.Precedes next ∧ next.localClose = line.localClose := by
  rcases receive_cases received with ⟨_, arrived, rest⟩ | ⟨same, _⟩
  · rw [rest]
    refine ⟨⟨rfl, id, id, ?_⟩, rfl⟩
    intro frame member
    rw [arrived]
    exact Or.inl (List.mem_cons_of_mem _ member)
  · rw [same]
    exact ⟨⟨rfl, id, id, fun _ => Or.inl⟩, rfl⟩

theorem precedes_effect (line : Duplex) (act : PeerAct) :
    line.Precedes (act.effect line) ∧ (act.effect line).localClose = line.localClose := by
  cases act with
  | send frame =>
    simp only [PeerAct.effect, peerSend]
    split
    · exact ⟨⟨rfl, id, id, fun _ => Or.inl⟩, rfl⟩
    · refine ⟨⟨rfl, id, id, ?_⟩, rfl⟩
      intro frame member
      exact Or.inl (by simpa using member)
  | close code reason =>
    have left : (line.peerClose code reason).peerGone = true ∧
        (line.peerClose code reason).clientGone = line.clientGone ∧
        (line.peerClose code reason).localClose = line.localClose := by
      simp only [peerClose]
      split <;> exact ⟨rfl, rfl, rfl⟩
    obtain ⟨gone, client, closed⟩ := left
    refine ⟨⟨client, fun _ => gone, ?_, fun _ _ => Or.inr gone⟩, closed⟩
    change _ → (line.peerClose code reason).localClose.isSome = true
    rw [closed]
    exact id
  | read =>
    simp only [PeerAct.effect, peerRead]
    split <;> exact ⟨⟨rfl, id, id, fun _ => Or.inl⟩, rfl⟩
  | leave => exact ⟨⟨rfl, fun _ => rfl, id, fun _ => Or.inl⟩, rfl⟩

end Duplex

end Tether.Transport

namespace Tether.Session

open Time (Instant Timestamp)
open Transport (CloseFrame ConnectionId Duplex Incoming)

variable {κ : Type}

namespace Wires

/-- A reader reports an end only of a connection that was closed or left, and never a failure. -/
structure Candid (wires : Wires Lines) : Prop where
  listens : ∀ id, (wires.rest id).clientGone = false
  silent : ∀ id frame, .closed frame ∈ (wires.rest id).toClient → (wires.rest id).peerGone = true
  told : ∀ id frame, .closed id frame ∈ wires.reports → (wires.rest id).Refuses
  whole : ∀ id reason, .failed id reason ∉ wires.reports

theorem Candid.later {wires next : Wires Lines} (candid : wires.Candid)
    (lines : ∀ id, (wires.rest id).Precedes (next.rest id))
    (reports : ∀ new ∈ next.reports, new ∈ wires.reports ∨ new.isResult = true ∨
      ∃ id incoming line, (wires.rest id).receive = (some incoming, line) ∧
        new = report id incoming) : next.Candid := by
  refine ⟨?_, ?_, ?_, ?_⟩
  · intro id
    rw [(lines id).client]
    exact candid.listens id
  · intro id frame member
    rcases (lines id).ends frame member with older | gone
    · exact (lines id).gone (candid.silent id frame older)
    · exact gone
  · intro id frame member
    have refuses : (wires.rest id).Refuses := by
      rcases reports _ member with older | result | ⟨other, incoming, line, received, found⟩
      · exact candid.told id frame older
      · cases result
      · cases incoming with
        | message bytes => cases found
        | closed last =>
          cases found
          rcases Duplex.receive_cases received with ⟨_, arrived, _⟩ | ⟨_, _, _, closed | ⟨gone, _⟩⟩
          · apply Or.inr
            apply candid.silent id frame
            rw [arrived]
            exact List.mem_cons_self
          · exact Or.inl closed
          · exact Or.inr gone
    exact refuses.imp (lines id).closed (lines id).gone
  · intro id reason member
    rcases reports _ member with older | result | ⟨other, incoming, line, _, found⟩
    · exact candid.whole id reason older
    · cases result
    · cases incoming <;> cases found

end Wires

namespace Course

/-- What a move of anyone but the session leaves beside it. -/
structure Stirs (course later : Course κ Lines) (next : Move κ) : Prop where
  lines : ∀ id, (course.wires.rest id).Precedes (later.wires.rest id) ∧
    (later.wires.rest id).localClose = (course.wires.rest id).localClose
  arrivals : ∀ id, (course.wires.rest id).peerGone = true → next ≠ .look id →
    (later.wires.rest id).toClient = (course.wires.rest id).toClient
  readers : ∀ id ∈ later.wires.readers, id ∈ course.wires.readers
  attempts : later.wires.attempts ≤ course.wires.attempts
  reports : ∃ fresh, later.wires.reports = course.wires.reports ++ fresh ∧
    ∀ new ∈ fresh, new.isResult = true ∧ 0 < course.wires.attempts ∨
      ∃ id incoming line, next = .look id ∧ id ∈ course.wires.readers ∧
        (course.wires.rest id).receive = (some incoming, line) ∧ new = report id incoming

theorem stirs_of_wires (course later : Course κ Lines) (next : Move κ)
    (same : later.wires = course.wires) : course.Stirs later next := by
  refine ⟨?_, ?_, ?_, ?_, [], ?_, by simp⟩
  · rw [same]
    exact fun id => ⟨Duplex.precedes_of_inward rfl, rfl⟩
  · rw [same]
    exact fun _ _ _ => rfl
  · rw [same]
    exact fun _ member => member
  · exact Nat.le_of_eq (by rw [same])
  · rw [same, List.append_nil]

private theorem stirs_endAttempt (course : Course κ Lines) (opened : List ConnectionId)
    {result : TransportEvent} (isResult : result.isResult = true) (next : Move κ) :
    course.StandsStill (course.endAttempt opened result) ∧
      course.Stirs (course.endAttempt opened result) next := by
  rcases course.endAttempt_cases opened result with same | ⟨some, ends⟩
  · rw [same]
    exact ⟨⟨rfl, rfl, rfl, rfl⟩, stirs_of_wires _ _ next rfl⟩
  · rw [ends]
    refine ⟨⟨rfl, rfl, rfl, rfl⟩, ?_, ?_, ?_, ?_, [result], rfl, ?_⟩
    · exact fun id => ⟨Duplex.precedes_of_inward rfl, rfl⟩
    · exact fun _ _ _ => rfl
    · exact fun _ member => member
    · exact Nat.sub_le _ _
    · intro new member
      rw [List.mem_singleton.mp member]
      exact Or.inl ⟨isResult, some⟩

variable [DecidableEq κ] (terms : Terms Lines)

private theorem stirs_look (course : Course κ Lines) (id : ConnectionId) :
    course.StandsStill (course.move terms (.look id)) ∧
      course.Stirs (course.move terms (.look id)) (.look id) := by
  rcases course.look_cases terms id with same | ⟨incoming, line, listens, received, looks⟩
  · rw [same]
    exact ⟨⟨rfl, rfl, rfl, rfl⟩, stirs_of_wires _ _ _ rfl⟩
  · rw [looks]
    refine ⟨⟨rfl, rfl, rfl, rfl⟩, ?_, ?_, ?_, Nat.le_refl _, [report id incoming], rfl, ?_⟩
    · intro other
      by_cases same : other = id
      · subst same
        simp only [wires, withWires, Lines.change_self]
        exact Duplex.precedes_receive received
      · simp only [wires, withWires, Lines.change_of_ne _ _ same]
        exact ⟨Duplex.precedes_of_inward rfl, trivial⟩
    · intro other _ apart
      have ne : other ≠ id := fun same => apart (congrArg Move.look same.symm)
      simp only [wires, withWires, Lines.change_of_ne _ _ ne]
    · intro other member
      simp only [wires, withWires] at member
      split at member
      · exact List.mem_of_mem_filter member
      · exact member
    · intro new member
      rw [List.mem_singleton.mp member]
      exact Or.inr ⟨id, incoming, line, rfl, listens, received, rfl⟩

private theorem stirs_peer (course : Course κ Lines) (id : ConnectionId) (act : PeerAct) :
    course.StandsStill (course.move terms (.peer id act)) ∧
      course.Stirs (course.move terms (.peer id act)) (.peer id act) := by
  rcases course.peer_cases terms id act with same | ⟨there, acts⟩
  · rw [same]
    exact ⟨⟨rfl, rfl, rfl, rfl⟩, stirs_of_wires _ _ _ rfl⟩
  · rw [acts]
    refine ⟨⟨rfl, rfl, rfl, rfl⟩, ?_, ?_, fun _ member => member, Nat.le_refl _, [], ?_, by simp⟩
    · intro other
      by_cases same : other = id
      · subst same
        simp only [wires, withWires, Lines.change_self]
        exact Duplex.precedes_effect _ act
      · simp only [wires, withWires, Lines.change_of_ne _ _ same]
        exact ⟨Duplex.precedes_of_inward rfl, trivial⟩
    · intro other gone _
      have ne : other ≠ id := by
        rintro rfl
        rw [there] at gone
        cases gone
      simp only [wires, withWires, Lines.change_of_ne _ _ ne]
    · exact (List.append_nil _).symm

/-- Most moves pass the session itself by. -/
theorem move_cases (course : Course κ Lines) (next : Move κ) :
    (course.StandsStill (course.move terms next) ∧ course.Stirs (course.move terms next) next) ∨
      (∃ choice, next = .take choice ∧ course.Waits ∧
        course.move terms next = course.attend terms choice) ∨
      (next = .proceed ∧ course.move terms next = course.advance terms) := by
  have still : course.StandsStill course := ⟨rfl, rfl, rfl, rfl⟩
  cases next with
  | submit message caller => exact Or.inl ⟨⟨rfl, rfl, rfl, rfl⟩, stirs_of_wires _ _ _ rfl⟩
  | notify message =>
    left
    change course.StandsStill (course.turn terms (.notify message)) ∧
      course.Stirs (course.turn terms (.notify message)) _
    simp only [turn]
    split
    · exact ⟨⟨rfl, rfl, rfl, rfl⟩, stirs_of_wires _ _ _ rfl⟩
    · exact ⟨still, stirs_of_wires _ _ _ rfl⟩
  | abandon caller => exact Or.inl ⟨⟨rfl, rfl, rfl, rfl⟩, stirs_of_wires _ _ _ rfl⟩
  | tick now time => exact Or.inl ⟨⟨rfl, rfl, rfl, rfl⟩, stirs_of_wires _ _ _ rfl⟩
  | openLine id =>
    left
    change course.StandsStill (course.turn terms (.openLine id)) ∧
      course.Stirs (course.turn terms (.openLine id)) _
    simp only [turn]
    split
    · exact ⟨still, stirs_of_wires _ _ _ rfl⟩
    · exact stirs_endAttempt course [id] rfl _
  | refuse reason => exact Or.inl (stirs_endAttempt course [] rfl _)
  | look id => exact Or.inl (course.stirs_look terms id)
  | peer id act => exact Or.inl (course.stirs_peer terms id act)
  | take choice =>
    rcases course.turn_take_cases terms choice with same | ⟨waits, attends⟩
    · left
      change course.StandsStill (course.turn terms (.take choice)) ∧
        course.Stirs (course.turn terms (.take choice)) _
      rw [same]
      exact ⟨still, stirs_of_wires _ _ _ rfl⟩
    · exact Or.inr (Or.inl ⟨choice, rfl, waits, attends⟩)
  | proceed => exact Or.inr (Or.inr ⟨rfl, rfl⟩)

omit [DecidableEq κ] in
private theorem loss_of_receive (outside : Surroundings (Wires Lines))
    (runner : Runner κ (Wires Lines)) (report : TransportEvent) {event : Event}
    (turned : event ∈ (Work.on (runner.receive outside report).2).events)
    (loss : event.isLoss = true) :
    report.isResult = true ∨ ∃ id, (runner.receive outside report).1.connection = some id ∧
      ((∃ reason, report = .failed id reason) ∨
        ∃ frame, report = .closed id frame ∧ event = .closed frame) := by
  cases report with
  | opened id => exact Or.inl rfl
  | refused reason => exact Or.inl rfl
  | message id frame =>
    simp only [Runner.receive] at turned
    split at turned
    · cases List.mem_singleton.mp turned
      cases loss
    · cases turned
  | closed id frame =>
    simp only [Runner.receive] at turned ⊢
    split at turned
    · rename_i current
      cases List.mem_singleton.mp turned
      exact Or.inr ⟨id, by simpa [Runner.isCurrent] using current, Or.inr ⟨frame, rfl, rfl⟩⟩
    · cases turned
  | failed id reason =>
    simp only [Runner.receive] at turned ⊢
    split at turned
    · rename_i current
      exact Or.inr ⟨id, by simpa [Runner.isCurrent] using current, Or.inl ⟨reason, rfl⟩⟩
    · cases turned

section

variable (memory : terms.port = .memory)

include memory

omit [DecidableEq κ] in
theorem inward_attend (course : Course κ Lines) (choice : Choice) (id : ConnectionId) :
    ((course.attend terms choice).wires.rest id).inward = (course.wires.rest id).inward := by
  cases choice with
  | flush => exact (course.runner.flush_memory terms memory course.now course.time).1 id
  | report =>
    simp only [attend]
    split
    · rfl
    · rename_i report reports _
      cases report with
      | opened id =>
        simp only [Runner.receive_opened]
        rfl
      | _ => rfl
  | disconnect => rfl
  | delay =>
    simp only [attend]
    split <;> rfl
  | sweep => rfl

omit [DecidableEq κ] in
/-- A session turns to a loss if it takes a report of one that concerns it, or if it flushes and
frames are refused. -/
theorem loss_of_attend {course : Course κ Lines} (idle : course.work = .waiting) {choice : Choice}
    {event : Event} (turned : event ∈ (course.attend terms choice).work.events)
    (loss : event.isLoss = true) :
    (choice = .flush ∧ course.runner.Balks terms course.now course.time ∧
        (course.attend terms choice).runner.connection = course.runner.connection) ∨
      ∃ report ∈ course.wires.reports, report.isResult = true ∨
        ∃ id, (course.attend terms choice).runner.connection = some id ∧
          ((∃ reason, report = .failed id reason) ∨
            ∃ frame, report = .closed id frame ∧ event = .closed frame) := by
  have none : course.work.events = [] := by rw [idle]; rfl
  cases choice with
  | flush =>
    left
    have flush := (course.runner.flush_memory terms memory course.now course.time).2.1
    simp only [attend] at turned
    rcases failed : (course.runner.flush (terms.outside course.now course.time)).2 with _ | other
    · rw [failed] at turned
      cases turned
    · refine ⟨rfl, flush.mp (by rw [failed]; rfl), ?_⟩
      rcases Runner.flush_cases terms course.now course.time course.runner with
        ⟨same, _⟩ | ⟨_, _, _, _, _, _, _, flushed, _⟩
      · simp only [attend, same]
      · simp only [attend, flushed]
  | report =>
    right
    simp only [attend] at turned ⊢
    cases queued : course.wires.reports with
    | nil =>
      simp only [queued, none] at turned
      cases turned
    | cons report reports =>
      simp only [queued] at turned
      exact ⟨report, List.mem_cons_self, loss_of_receive _ _ report turned loss⟩
  | disconnect =>
    cases List.mem_singleton.mp turned
    cases loss
  | delay =>
    simp only [attend] at turned
    split at turned
    · cases List.mem_singleton.mp turned
      cases loss
    · rw [none] at turned
      cases turned
  | sweep =>
    change event ∈ course.work.events at turned
    rw [none] at turned
    cases turned

omit [DecidableEq κ] in
theorem lines_advance (course : Course κ Lines) (id : ConnectionId) :
    ((course.advance terms).wires.rest id).inward = (course.wires.rest id).inward ∨
      ∃ code reason actions events,
        course.work = .busy (.closeTransport code reason :: actions) events ∧
          (course.advance terms).wires.rest id = (course.wires.rest id).close code reason := by
  rcases course.advance_cases terms with
    same | ⟨action, actions, events, work, _, acts⟩ | ⟨_, _, _, handles⟩ | ⟨_, _, publishes⟩
  · exact Or.inl (by rw [same])
  · rw [acts]
    rcases course.runner.perform_memory terms memory course.now course.time action with
      same | ⟨code, reason, line, rfl, _, closes⟩
    · exact Or.inl (same id)
    · simp only [wires, closes]
      by_cases same : id = line
      · subst same
        exact Or.inr ⟨code, reason, actions, events, work, Lines.change_self _ _ _⟩
      · exact Or.inl (by rw [Lines.change_of_ne _ _ same])
  · exact Or.inl (by rw [handles]; rfl)
  · exact Or.inl (by rw [publishes]; rfl)

/-- Whatever happens next happens to connections as they are, and only the session closes one. -/
theorem lines_move (course : Course κ Lines) (next : Move κ) (id : ConnectionId) :
    (course.wires.rest id).Precedes ((course.move terms next).wires.rest id) ∧
      (((course.move terms next).wires.rest id).localClose = (course.wires.rest id).localClose ∨
        ∃ code reason actions events,
          course.work = .busy (.closeTransport code reason :: actions) events) := by
  have inward {later : Course κ Lines}
      (same : (later.wires.rest id).inward = (course.wires.rest id).inward) :
      (course.wires.rest id).Precedes (later.wires.rest id) ∧
        (later.wires.rest id).localClose = (course.wires.rest id).localClose :=
    ⟨Duplex.precedes_of_inward same, (Duplex.inward_eq_iff.mp same).2.1⟩
  rcases course.move_cases terms next with
    ⟨_, stirs⟩ | ⟨choice, _, _, attends⟩ | ⟨_, advances⟩
  · exact (stirs.lines id).imp_right Or.inl
  · rw [attends]
    exact (inward (course.inward_attend terms memory choice id)).imp_right Or.inl
  · rw [advances]
    rcases course.lines_advance terms memory id with
      same | ⟨code, reason, actions, events, work, closes⟩
    · exact (inward same).imp_right Or.inl
    · rw [closes]
      exact ⟨Duplex.precedes_close _ code reason, Or.inr ⟨code, reason, actions, events, work⟩⟩

omit memory in
theorem reports_move (course : Course κ Lines) (next : Move κ) {new : TransportEvent}
    (reported : new ∈ (course.move terms next).wires.reports) :
    new ∈ course.wires.reports ∨ new.isResult = true ∨
      ∃ id incoming line, (course.wires.rest id).receive = (some incoming, line) ∧
        new = report id incoming := by
  rcases course.move_cases terms next with
    ⟨_, stirs⟩ | ⟨choice, _, _, attends⟩ | ⟨_, advances⟩
  · obtain ⟨fresh, grown, origin⟩ := stirs.reports
    rw [grown] at reported
    rcases List.mem_append.mp reported with older | came
    · exact Or.inl older
    · rcases origin new came with ⟨result, _⟩ | ⟨id, incoming, line, _, _, received, found⟩
      · exact Or.inr (Or.inl result)
      · exact Or.inr (Or.inr ⟨id, incoming, line, received, found⟩)
  · left
    rw [attends, (course.attend_wires terms choice).2.1] at reported
    split at reported
    · exact List.mem_of_mem_tail reported
    · exact reported
  · left
    rwa [advances, (course.advance_wires terms).1] at reported

theorem candid_move {course : Course κ Lines} (candid : course.wires.Candid) (next : Move κ) :
    (course.move terms next).wires.Candid :=
  candid.later (fun id => (course.lines_move terms memory next id).1)
    fun _ reported => course.reports_move terms next reported

end

/-- Readers report the truth, only a session that ends has closed a connection, and a connected one
turns to a loss only if the peer of its connection is gone. -/
structure Wired (course : Course κ Lines) : Prop where
  candid : course.wires.Candid
  asked : ∀ id, (course.wires.rest id).localClose.isSome = true →
    course.state = .closing ∨ course.state = .closed
  lost : course.state = .connected → ∀ event ∈ course.work.events, event.isLoss = true →
    ∃ id, course.runner.connection = some id ∧ (course.wires.rest id).peerGone = true

omit [DecidableEq κ] in
theorem wired_start (now : Instant) (time : Timestamp) :
    (start terms now time .fresh : Course κ Lines).Wired := by
  refine ⟨⟨fun _ => rfl, ?_, ?_, ?_⟩, ?_, ?_⟩
  · intro id frame member
    cases member
  · intro id frame member
    cases member
  · intro id reason member
    cases member
  · intro id closed
    cases closed
  · intro connected
    cases connected

omit [DecidableEq κ] in
/-- A connected session has closed no connection, so one that refuses frames was left by its
peer. -/
theorem Wired.gone_of_refuses {course : Course κ Lines} (wired : course.Wired)
    (connected : course.state = .connected) {id : ConnectionId}
    (refuses : (course.wires.rest id).Refuses) : (course.wires.rest id).peerGone = true := by
  rcases refuses with closed | gone
  · rcases wired.asked id closed with ends | ends
    · rw [connected] at ends
      cases ends
    · rw [connected] at ends
      cases ends
  · exact gone

theorem state_move (course : Course κ Lines) (next : Move κ) :
    (course.move terms next).state = course.state ∨
      ∃ event, (course.move terms next).state = (course.runner.lifecycle.handle event).1.state := by
  rcases course.move_cases terms next with
    ⟨still, _⟩ | ⟨choice, _, ⟨idle, _⟩, attends⟩ | ⟨_, advances⟩
  · exact Or.inl (congrArg Lifecycle.state still.lifecycle)
  · rw [attends]
    exact Or.inl (congrArg Lifecycle.state (attend_leaves terms idle choice).1)
  · rw [advances]
    rcases course.advance_cases terms with
      same | ⟨action, _, _, _, _, acts⟩ | ⟨event, _, _, handles⟩ | ⟨_, _, publishes⟩
    · exact Or.inl (by rw [same])
    · rw [acts]
      exact Or.inl (congrArg Lifecycle.state
        (Runner.perform_leaves terms course.now course.time course.runner action).1)
    · exact Or.inr ⟨event, by rw [handles]; rfl⟩
    · exact Or.inl (by rw [publishes]; rfl)

theorem closed_move {course : Course κ Lines} (closed : course.state = .closed) (next : Move κ) :
    (course.move terms next).state = .closed := by
  rcases course.state_move terms next with same | ⟨event, handled⟩
  · exact same.trans closed
  · change course.runner.lifecycle.state = .closed at closed
    rw [handled]
    cases event <;> simp [Lifecycle.handle, closed]

theorem ends_move {course : Course κ Lines} (ends : course.state = .closing ∨ course.state = .closed)
    (next : Move κ) :
    (course.move terms next).state = .closing ∨ (course.move terms next).state = .closed := by
  rcases ends with closing | closed
  · rcases course.state_move terms next with same | ⟨event, handled⟩
    · exact Or.inl (same.trans closing)
    · change course.runner.lifecycle.state = .closing at closing
      rw [handled]
      cases event <;> simp [Lifecycle.handle, closing]
  · exact Or.inr (closed_move terms closed next)

variable (memory : terms.port = .memory)

include memory

omit [DecidableEq κ] in
/-- A connected session that turns to a loss was told of it by a reader, or was refused. -/
private theorem Wired.lost_attend {course : Course κ Lines} (wired : course.Wired)
    (sound : course.Sound) (idle : course.work = .waiting) (connected : course.state = .connected)
    {choice : Choice} {event : Event} (turned : event ∈ (course.attend terms choice).work.events)
    (loss : event.isLoss = true) :
    ∃ id, (course.attend terms choice).runner.connection = some id ∧
      (course.wires.rest id).peerGone = true := by
  rcases loss_of_attend terms memory idle turned loss with
    ⟨_, ⟨line, _, ships, _, refuses⟩, connection⟩ |
      ⟨report, queued, result | ⟨id, current, ⟨reason, rfl⟩ | ⟨frame, rfl, _⟩⟩⟩
  · refine ⟨line, ?_, wired.gone_of_refuses connected refuses⟩
    rw [connection]
    exact (Runner.flushDeed_eq_ship terms ships).2.1
  · have rests := sound.rests_of_waiting idle
    rw [connected] at rests
    have none : course.wires.reports.countP TransportEvent.isResult = 0 :=
      (Nat.add_eq_zero_iff.mp rests).2
    exact absurd result (List.countP_eq_zero.mp none report queued)
  · exact absurd queued (wired.candid.whole id reason)
  · exact ⟨id, current, wired.gone_of_refuses connected (wired.candid.told id frame queued)⟩

omit [DecidableEq κ] in
theorem Sound.balks {course : Course κ Lines} (sound : course.Sound)
    (connected : course.state = .connected) {action : Action} {actions : List Action}
    {events : List Event} (work : course.work = .busy (action :: actions) events) {event : Event}
    (follows : (course.runner.perform (terms.outside course.now course.time) action).followUp =
      some event) :
    action = .flushQueue ∧ course.runner.Balks terms course.now course.time := by
  obtain ⟨provokes, _⟩ :=
    Runner.perform_followUp (terms.outside course.now course.time) course.runner action event
      follows
  cases action with
  | flushQueue =>
    have flush := (course.runner.flush_memory terms memory course.now course.time).2.1
    exact ⟨rfl, flush.mp (Option.isSome_iff_exists.mpr ⟨event, follows⟩)⟩
  | closeTransport code reason =>
    have closing := sound.closes code reason (by rw [work]; exact List.mem_cons_self)
    rw [connected] at closing
    cases closing
  | _ => cases provokes

omit [DecidableEq κ] memory in
theorem connection_of_action {course : Course κ Lines} (settled : course.Settled)
    (state : course.state = .connected ∨ course.state = .closing) {action : Action}
    {actions : List Action} {events : List Event}
    (work : course.work = .busy (action :: actions) events) :
    (course.runner.perform (terms.outside course.now course.time) action).runner.connection =
      course.runner.connection := by
  have keeps : action ≠ .dropTransport := by
    rintro rfl
    have drops := settled.drops (by rw [work]; exact List.mem_cons_self)
    rcases state with stands | stands <;> simp [stands] at drops
  have connection :=
    (Runner.perform_leaves terms course.now course.time course.runner action).2.1
  rwa [if_neg keeps] at connection

theorem Wired.move {course : Course κ Lines} (wired : course.Wired) (sound : course.Sound)
    (settled : course.Settled) (next : Move κ) : (course.move terms next).Wired := by
  refine ⟨course.candid_move terms memory wired.candid next, ?_, ?_⟩
  · intro id closed
    refine ends_move terms ?_ next
    rcases (course.lines_move terms memory next id).2 with
      same | ⟨code, reason, actions, events, work⟩
    · rw [same] at closed
      exact wired.asked id closed
    · left
      apply sound.closes code reason
      rw [work]
      exact List.mem_cons_self
  · intro connected event member loss
    have stays {held : Option ConnectionId}
        (lost : ∃ id, held = some id ∧ (course.wires.rest id).peerGone = true) :
        ∃ id, held = some id ∧ ((course.move terms next).wires.rest id).peerGone = true := by
      obtain ⟨id, current, gone⟩ := lost
      exact ⟨id, current, (course.lines_move terms memory next id).1.gone gone⟩
    rcases course.move_cases terms next with
      ⟨⟨work, lifecycle, connection, _⟩, _⟩ | ⟨choice, _, ⟨idle, _⟩, attends⟩ | ⟨_, advances⟩
    · have same := congrArg Lifecycle.state lifecycle
      rw [work] at member
      rw [connection]
      exact stays (wired.lost (same.symm.trans connected) event member loss)
    · have same := congrArg Lifecycle.state (attend_leaves terms idle choice).1
      rw [attends] at connected member stays ⊢
      exact stays (wired.lost_attend terms memory sound idle (same.symm.trans connected) member loss)
    · rw [advances] at connected member stays ⊢
      rcases course.advance_cases terms with
        same | ⟨action, actions, events, work, _, acts⟩ | ⟨handled, events, work, handles⟩ |
          ⟨_, work, publishes⟩
      · rw [same] at connected member stays ⊢
        exact stays (wired.lost connected event member loss)
      · have same := congrArg Lifecycle.state
          (Runner.perform_leaves terms course.now course.time course.runner action).1
        rw [acts] at connected member stays ⊢
        have before : course.state = .connected := same.symm.trans connected
        apply stays
        rw [connection_of_action terms settled (Or.inl before) work]
        rcases List.mem_append.mp member with older | new
        · exact wired.lost before event (by rw [work]; exact older) loss
        · obtain ⟨_, line, _, ships, _, refuses⟩ :=
            sound.balks terms memory before work (Option.mem_toList.mp new)
          exact ⟨line, (Runner.flushDeed_eq_ship terms ships).2.1,
            wired.gone_of_refuses before refuses⟩
      · rw [handles, sound.alone work] at member
        cases member
      · rw [publishes] at member
        cases member

end Course

end Tether.Session
