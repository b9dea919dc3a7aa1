import Tether.Proofs.Session.Lines
import Tether.Proofs.Session.Wiring

namespace Tether.Session

open Time (Instant Timestamp)
open Transport (CloseFrame ConnectionId Duplex Incoming)

variable {κ : Type}

namespace Course

theorem dialing_eq_zero {course : Course κ Lines} :
    course.dialing = 0 ↔ .openTransport ∉ course.work.actions ∧ course.wires.attempts = 0 ∧
      ∀ report ∈ course.wires.reports, report.isResult = false := by
  simp [dialing, List.count_eq_zero, List.countP_eq_zero]

end Course

theorem Lifecycle.state_of_dials (machine : Lifecycle) (event : Event)
    (dials : .openTransport ∈ (machine.handle event).2) : machine.state = .disconnected := by
  obtain ⟨state, backoff, resend, failures⟩ := machine
  cases state with
  | disconnected => rfl
  | connected =>
    cases event with
    | closed frame =>
      simp only [handle] at dials
      split at dials
      · simp at dials
      · exact absurd dials (List.count_eq_zero.mp (count_openTransport_onLoss _))
    | failed reason => exact absurd dials (List.count_eq_zero.mp (count_openTransport_onLoss _))
    | _ => simp [handle, closeForGood] at dials
  | _ => cases event <;> simp [handle, closeForGood] at dials

theorem Lifecycle.handle_parting (machine : Lifecycle) (event : Event)
    (state : machine.state = .connected ∨ machine.state = .closing)
    (calm : machine.state = .connected → event.isLoss = true →
      ∃ frame, event = .closed frame ∧ frame.isNormal = true) :
    (machine.handle event).1.state = .closed ∨
      event.isLoss = false ∧ .dropTransport ∉ (machine.handle event).2 ∧
        ((machine.handle event).1.state = .connected ∧ machine.state = .connected ∨
          (machine.handle event).1.state = .closing) := by
  obtain ⟨stands, backoff, resend, failures⟩ := machine
  rcases state with rfl | rfl
  · cases event with
    | failed reason =>
      obtain ⟨frame, other, _⟩ := calm rfl rfl
      cases other
    | closed frame =>
      obtain ⟨_, same, normal⟩ := calm rfl rfl
      cases same
      simp [handle, normal]
    | _ => simp [handle, Event.isLoss, closeForGood]
  · cases event <;> simp [handle, Event.isLoss, closeForGood]

namespace Course

variable [DecidableEq κ] (terms : Terms Lines)

/-- Only a session without connection makes attempts. -/
theorem dialing_move {course : Course κ Lines} (none : course.dialing = 0)
    (state : course.state ≠ .disconnected) (next : Move κ) :
    (course.move terms next).dialing = 0 := by
  obtain ⟨idle, attempts, results⟩ := dialing_eq_zero.mp none
  apply dialing_eq_zero.mpr
  rcases course.move_cases terms next with
    ⟨⟨work, _, _, _⟩, stirs⟩ | ⟨choice, _, ⟨waits, _⟩, attends⟩ | ⟨_, advances⟩
  · refine ⟨by rwa [work], ?_, ?_⟩
    · have fewer := stirs.attempts
      omega
    · obtain ⟨fresh, grown, origin⟩ := stirs.reports
      intro report member
      rw [grown] at member
      rcases List.mem_append.mp member with older | new
      · exact results report older
      · rcases origin report new with ⟨_, some⟩ | ⟨_, _, _, _, _, _, found⟩
        · omega
        · rw [found, isResult_report]
  · obtain ⟨same, fewer, _⟩ := course.attend_wires terms choice
    rw [attends, same, fewer, (attend_leaves terms waits choice).2.1]
    refine ⟨List.not_mem_nil, attempts, ?_⟩
    intro report member
    apply results report
    split at member
    · exact List.mem_of_mem_tail member
    · exact member
  · rw [advances]
    rcases course.advance_cases terms with
      same | ⟨action, actions, events, work, _, acts⟩ | ⟨event, _, work, handles⟩ |
        ⟨_, work, publishes⟩
    · rw [same]
      exact ⟨idle, attempts, results⟩
    · obtain ⟨_, _, dials, reports, _⟩ :=
        Runner.perform_leaves terms course.now course.time course.runner action
      rw [work] at idle
      have other : action ≠ .openTransport := by
        rintro rfl
        exact idle List.mem_cons_self
      rw [acts]
      refine ⟨fun member => idle (List.mem_cons_of_mem _ member), ?_, ?_⟩
      · simpa [wires, dials, other] using attempts
      · simp only [wires, reports]
        exact results
    · rw [handles]
      refine ⟨?_, attempts, results⟩
      exact fun dials => state (course.runner.lifecycle.state_of_dials event dials)
    · rw [publishes]
      exact ⟨List.not_mem_nil, attempts, results⟩

/-- All that is still to be learned of a connection is that it was closed in good order. -/
structure Calm (course : Course κ Lines) (id : ConnectionId) : Prop where
  events : ∀ event ∈ course.work.events, event.isLoss = true →
    ∃ frame, event = .closed frame ∧ frame.isNormal = true
  reports : ∀ frame, .closed id frame ∈ course.wires.reports → frame.isNormal = true
  arrivals : ∀ frame, .closed frame ∈ (course.wires.rest id).toClient → frame.isNormal = true
  comes : id ∈ course.wires.readers → ∃ frame, .closed frame ∈ (course.wires.rest id).toClient

/-- The peer has closed the connection that the session has, and the session does not know yet. -/
structure Parting (course : Course κ Lines) (id : ConnectionId) : Prop where
  current : course.runner.connection = some id
  state : course.state = .connected ∨ course.state = .closing
  dialing : course.dialing = 0
  gone : (course.wires.rest id).peerGone = true
  calm : course.state = .connected → course.Calm id

/-- Frames wait, and the next move writes them to the connection. -/
def Flushes (course : Course κ Lines) (next : Move κ) : Prop :=
  course.core.outbox.frames ≠ [] ∧ ∃ line count, course.moveDeed terms next = .ship line count

omit [DecidableEq κ] in
private theorem Calm.look {course : Course κ Lines} {id : ConnectionId} (calm : course.Calm id)
    (unasked : (course.wires.rest id).localClose.isSome = false)
    (listens : id ∈ course.wires.readers) {incoming : Incoming} {line : Duplex}
    (received : (course.wires.rest id).receive = (some incoming, line)) :
    (course.withWires { course.wires with
      readers :=
        if isEnd incoming then course.wires.readers.filter (· ≠ id) else course.wires.readers
      reports := course.wires.reports ++ [report id incoming]
      rest := course.wires.rest.change id fun _ => line }).Calm id := by
  obtain ⟨frame, coming⟩ := calm.comes listens
  rcases Duplex.receive_cases received with
    ⟨_, arrived, _⟩ | ⟨_, _, _, asked | ⟨_, nothing⟩⟩
  · have among {other : Incoming} (member : other ∈ line.toClient) :
        other ∈ (course.wires.rest id).toClient := by
      rw [arrived]
      exact List.mem_cons_of_mem _ member
    refine ⟨calm.events, ?_, ?_, ?_⟩
    · intro last member
      rcases List.mem_append.mp member with older | new
      · exact calm.reports last older
      · apply calm.arrivals last
        rw [arrived]
        cases incoming with
        | message bytes => cases List.mem_singleton.mp new
        | closed found =>
          cases List.mem_singleton.mp new
          exact List.mem_cons_self
    · intro last member
      simp only [wires, withWires, Lines.change_self] at member
      exact calm.arrivals last (among member)
    · intro still
      simp only [wires, withWires, Lines.change_self] at still ⊢
      cases incoming with
      | message bytes =>
        refine ⟨frame, ?_⟩
        rw [arrived] at coming
        exact (List.mem_cons.mp coming).resolve_left (by simp)
      | closed found =>
        simp [isEnd] at still
  · rw [unasked] at asked
    cases asked
  · rw [nothing] at coming
    cases coming

variable (memory : terms.port = .memory)

omit [DecidableEq κ] in
include memory in
/-- A session that turns to something learns of the close or of nothing, unless it is refused. -/
private theorem Calm.attend {course : Course κ Lines} {id : ConnectionId} (calm : course.Calm id)
    (candid : course.wires.Candid) (none : course.dialing = 0) (idle : course.work = .waiting)
    {choice : Choice} (current : (course.attend terms choice).runner.connection = some id)
    (writes : choice = .flush → ¬course.runner.Balks terms course.now course.time) :
    (course.attend terms choice).Calm id := by
  obtain ⟨_, _, results⟩ := dialing_eq_zero.mp none
  obtain ⟨_, reports, _, readers⟩ := course.attend_wires terms choice
  have arrived := (Duplex.inward_eq_iff.mp (course.inward_attend terms memory choice id)).1
  refine ⟨?_, ?_, ?_, ?_⟩
  · intro event turned loss
    rcases loss_of_attend terms memory idle turned loss with
      ⟨flushes, balks, _⟩ | ⟨report, queued, result | ⟨line, held, ⟨reason, rfl⟩ | ⟨frame, rfl, rfl⟩⟩⟩
    · exact absurd balks (writes flushes)
    · rw [results report queued] at result
      cases result
    · exact absurd queued (candid.whole line reason)
    · cases current.symm.trans held
      exact ⟨frame, rfl, calm.reports frame queued⟩
  · rw [reports]
    intro frame member
    apply calm.reports frame
    split at member
    · exact List.mem_of_mem_tail member
    · exact member
  · rw [arrived]
    exact calm.arrivals
  · rw [arrived]
    rcases readers with same | ⟨other, opened⟩
    · rw [same]
      exact calm.comes
    · cases results _ opened

private theorem Calm.stirs {course : Course κ Lines} {id : ConnectionId} (calm : course.Calm id)
    (unasked : (course.wires.rest id).localClose.isSome = false)
    (gone : (course.wires.rest id).peerGone = true) (none : course.wires.attempts = 0)
    {next : Move κ} (work : (course.move terms next).work = course.work)
    (stirs : course.Stirs (course.move terms next) next) : (course.move terms next).Calm id := by
  by_cases looks : next = .look id
  · subst looks
    rcases course.look_cases terms id with same | ⟨incoming, line, listens, received, found⟩
    · rw [same]
      exact calm
    · rw [found]
      exact calm.look unasked listens received
  · have arrived := stirs.arrivals id gone looks
    refine ⟨?_, ?_, ?_, ?_⟩
    · rw [work]
      exact calm.events
    · obtain ⟨fresh, grown, origin⟩ := stirs.reports
      intro frame member
      rw [grown] at member
      rcases List.mem_append.mp member with older | new
      · exact calm.reports frame older
      · rcases origin _ new with ⟨_, some⟩ | ⟨other, incoming, _, looked, _, _, found⟩
        · omega
        · cases incoming with
          | message bytes => cases found
          | closed last =>
            cases found
            exact absurd looked looks
    · rw [arrived]
      exact calm.arrivals
    · rw [arrived]
      exact fun listens => calm.comes (stirs.readers id listens)

omit [DecidableEq κ] in
theorem flushes_of_balks {course : Course κ Lines}
    (balks : course.runner.Balks terms course.now course.time) {next : Move κ}
    (deed : course.moveDeed terms next =
      course.runner.flushDeed (terms.outside course.now course.time)) :
    course.Flushes terms next := by
  obtain ⟨line, count, ships, waits, _⟩ := balks
  exact ⟨waits, line, count, deed.trans ships⟩

omit [DecidableEq κ] in
theorem deed_take_flush {course : Course κ Lines} (waits : course.Waits) :
    course.moveDeed terms (.take .flush) =
      course.runner.flushDeed (terms.outside course.now course.time) := by
  simp [moveDeed, deed, waits.1, waits.2]

omit [DecidableEq κ] in
theorem deed_flushQueue {course : Course κ Lines} {actions : List Action} {events : List Event}
    (work : course.work = .busy (.flushQueue :: actions) events)
    (going : course.runner.stranded = false) :
    course.moveDeed terms .proceed =
      course.runner.flushDeed (terms.outside course.now course.time) := by
  simp [moveDeed, deed, work, going, Runner.deed]

omit [DecidableEq κ] in
include memory in
private theorem Calm.advance {course : Course κ Lines} {id : ConnectionId} (calm : course.Calm id)
    (connected : course.state = .connected) (sound : course.Sound)
    (quiet : ¬course.Flushes terms .proceed) : (course.advance terms).Calm id := by
  have arrived : ((course.advance terms).wires.rest id).toClient =
      (course.wires.rest id).toClient := by
    rcases course.lines_advance terms memory id with inward | ⟨code, reason, _, _, _, closes⟩
    · exact (Duplex.inward_eq_iff.mp inward).1
    · rw [closes]
      exact (Duplex.close_cases _ code reason).1
  obtain ⟨reports, _, readers⟩ := course.advance_wires terms
  refine ⟨?_, ?_, ?_, ?_⟩
  · intro event member loss
    rcases course.advance_cases terms with
      same | ⟨action, actions, events, work, going, acts⟩ | ⟨first, events, work, handles⟩ |
        ⟨_, _, publishes⟩
    · rw [same] at member
      exact calm.events event member loss
    · rw [acts] at member
      rcases List.mem_append.mp member with older | new
      · exact calm.events event (by rw [work]; exact older) loss
      · have follows := Option.mem_toList.mp new
        obtain ⟨rfl, balks⟩ := sound.balks terms memory connected work follows
        exact absurd (flushes_of_balks terms balks (deed_flushQueue terms work going)) quiet
    · rw [handles] at member
      obtain rfl := sound.alone work
      cases member
    · rw [publishes] at member
      cases member
  · rw [reports]
    exact calm.reports
  · rw [arrived]
    exact calm.arrivals
  · rw [arrived, readers]
    exact calm.comes

omit [DecidableEq κ] in
include memory in
private theorem Parting.advance {course : Course κ Lines} {id : ConnectionId}
    (parting : course.Parting id) (sound : course.Sound)
    (settled : course.Settled) (none : (course.advance terms).dialing = 0)
    (gone : ((course.advance terms).wires.rest id).peerGone = true)
    (quiet : ¬course.Flushes terms .proceed) :
    (course.advance terms).Parting id ∨ (course.advance terms).state = .closed := by
  obtain ⟨current, state, _, _, calm⟩ := parting
  have still (connected : course.state = .connected) : (course.advance terms).Calm id :=
    (calm connected).advance terms memory connected sound quiet
  rcases course.advance_cases terms with
    same | ⟨action, actions, events, work, _, acts⟩ | ⟨event, events, work, handles⟩ |
      ⟨_, _, publishes⟩
  · rw [same] at none gone ⊢
    exact Or.inl ⟨current, state, none, gone, calm⟩
  · left
    have same : (course.advance terms).state = course.state := by
      rw [acts]
      exact congrArg Lifecycle.state
        (Runner.perform_leaves terms course.now course.time course.runner action).1
    have connection : (course.advance terms).runner.connection = some id := by
      rw [acts]
      exact (connection_of_action terms settled state work).trans current
    exact ⟨connection, same ▸ state, none, gone, fun connected => still (same ▸ connected)⟩
  · rw [handles] at none gone still ⊢
    have lost : course.state = .connected → event.isLoss = true →
        ∃ frame, event = .closed frame ∧ frame.isNormal = true := by
      intro connected
      exact (calm connected).events event (by rw [work]; exact List.mem_cons_self)
    rcases course.runner.lifecycle.handle_parting event state lost with over' | ⟨_, keeps, stands⟩
    · exact Or.inr over'
    · left
      refine ⟨current, stands.imp_left And.left, none, gone, ?_⟩
      intro connected
      rcases stands with ⟨_, before⟩ | closing
      · exact still before
      · exact absurd (connected.symm.trans closing) (by simp)
  · rw [publishes] at none gone still ⊢
    exact Or.inl ⟨current, state, none, gone, still⟩

include memory in
/-- A session whose connection was closed goes on to its end, unless it writes to that
connection. -/
theorem Parting.move {course : Course κ Lines} {id : ConnectionId} (parting : course.Parting id)
    (wired : course.Wired) (sound : course.Sound) (settled : course.Settled) {next : Move κ}
    (quiet : ¬course.Flushes terms next) :
    (course.move terms next).Parting id ∨ (course.move terms next).state = .closed := by
  obtain ⟨current, state, none, gone, calm⟩ := parting
  have going : course.state ≠ .disconnected := by
    rcases state with stands | stands <;> simp [stands]
  have idle := course.dialing_move terms none going next
  have left' := (course.lines_move terms memory next id).1.gone gone
  rcases course.move_cases terms next with
    ⟨⟨work, lifecycle, connection, _⟩, stirs⟩ | ⟨choice, rfl, waits, attends⟩ | ⟨rfl, advances⟩
  · left
    have same : (course.move terms next).state = course.state := congrArg Lifecycle.state lifecycle
    refine ⟨connection.trans current, same ▸ state, idle, left', ?_⟩
    rw [same]
    intro connected
    have unasked : (course.wires.rest id).localClose.isSome = false := by
      apply Bool.eq_false_iff.mpr
      intro asked
      simpa [connected] using wired.asked id asked
    exact (calm connected).stirs terms unasked gone (dialing_eq_zero.mp none).2.1 work stirs
  · left
    obtain ⟨lifecycle, _, connection⟩ := attend_leaves terms waits.1 choice
    rw [attends] at idle left' ⊢
    have same : (course.attend terms choice).state = course.state :=
      congrArg Lifecycle.state lifecycle
    have held : (course.attend terms choice).runner.connection = some id := by
      rcases connection with kept | ⟨other, reports, queued, _⟩
      · exact kept.trans current
      · have results := (dialing_eq_zero.mp none).2.2 (.opened other)
          (by rw [queued]; exact List.mem_cons_self)
        cases results
    refine ⟨held, same ▸ state, idle, left', ?_⟩
    rw [same]
    intro connected
    apply (calm connected).attend terms memory wired.candid none waits.1 held
    rintro rfl balks
    exact quiet (flushes_of_balks terms balks (deed_take_flush terms waits))
  · rw [advances] at idle left' ⊢
    exact Parting.advance terms memory ⟨current, state, none, gone, calm⟩ sound settled idle left'
      quiet

omit [DecidableEq κ] in
theorem Sound.dialing_of_connected {course : Course κ Lines} (sound : course.Sound)
    (connected : course.state = .connected) : course.dialing = 0 := by
  by_cases calm : course.work.events = []
  · have rests := sound.rests calm
    rwa [connected] at rests
  · obtain ⟨event, events, queued⟩ := List.exists_cons_of_ne_nil calm
    have expects := sound.expects event (by rw [queued]; exact List.mem_cons_self)
    rw [connected] at expects
    cases event with
    | opened => rcases expects with ⟨other, _⟩ | other | other <;> cases other
    | _ => exact expects

/-- A peer that closes the connection of a connected session in good order leaves it with the close
to learn of. -/
theorem parting_of_close {course : Course κ Lines} (wired : course.Wired) (sound : course.Sound)
    (lined : course.Lined) {id : ConnectionId} (connected : course.state = .connected)
    (current : course.runner.connection = some id)
    (there : (course.wires.rest id).peerGone = false) (reason : String) :
    (course.move terms (.peer id (.close Transport.CloseCode.normal reason))).Parting id := by
  have moved := course.move_peer terms (.close Transport.CloseCode.normal reason)
    (lined.owned id current) there
  have here : ((course.move terms (.peer id (.close Transport.CloseCode.normal reason))).wires.rest
      id) = (course.wires.rest id).peerClose Transport.CloseCode.normal reason := by
    rw [moved]
    exact Lines.change_self course.wires.rest id fun line =>
      PeerAct.effect line (.close Transport.CloseCode.normal reason)
  obtain ⟨gone, arrived⟩ :=
    Duplex.peerClose_cases (wired.candid.listens id) Transport.CloseCode.normal reason
  have unrefused : ¬(course.wires.rest id).Refuses := by
    intro refuses
    have left' := wired.gone_of_refuses connected refuses
    rw [there] at left'
    cases left'
  refine ⟨?_, ?_, ?_, ?_, ?_⟩
  · rw [moved]
    exact current
  · rw [moved]
    exact Or.inl connected
  · apply course.dialing_move terms (sound.dialing_of_connected connected)
    simp [connected]
  · rw [here]
    exact gone
  · intro _
    refine ⟨?_, ?_, ?_, ?_⟩
    · rw [moved]
      intro event member loss
      obtain ⟨other, held, left'⟩ := wired.lost connected event member loss
      cases current.symm.trans held
      exact absurd (Or.inr left') unrefused
    · rw [moved]
      intro frame member
      exact absurd (wired.candid.told id frame member) unrefused
    · rw [here, arrived]
      intro frame member
      rcases List.mem_append.mp member with older | new
      · exact absurd (Or.inr (wired.candid.silent id frame older)) unrefused
      · cases List.mem_singleton.mp new
        rfl
    · rw [here, arrived]
      intro _
      exact ⟨_, List.mem_append_right _ List.mem_cons_self⟩

theorem effort_move {course : Course κ Lines} (going : course.runner.stranded = false)
    (busy : course.work ≠ .waiting) (next : Move κ) :
    (course.move terms next).work.effort ≤ course.work.effort ∧
      (next = .proceed → (course.move terms next).work.effort < course.work.effort) := by
  have own := course.effort_advance terms going busy
  refine ⟨?_, ?_⟩
  · rcases course.move_cases terms next with ⟨still, _⟩ | ⟨_, _, ⟨idle, _⟩, _⟩ | ⟨_, advances⟩
    · exact Nat.le_of_eq (congrArg Work.effort still.work)
    · exact absurd idle busy
    · rw [advances]
      exact Nat.le_of_lt own
  · rintro rfl
    exact own

theorem arrivals_look {course : Course κ Lines} {id : ConnectionId}
    (gone : (course.wires.rest id).peerGone = true) (listens : id ∈ course.wires.readers) :
    ((course.move terms (.look id)).wires.rest id).toClient.length <
        (course.wires.rest id).toClient.length ∨
      (course.move terms (.look id)).wires.rest id = course.wires.rest id ∧
        id ∉ (course.move terms (.look id)).wires.readers := by
  obtain ⟨incoming, line, received⟩ := Duplex.receive_of_peerGone gone
  have moved := course.move_look terms listens received
  have here : (course.move terms (.look id)).wires.rest id = line := by
    rw [moved]
    exact Lines.change_self course.wires.rest id fun _ => line
  rw [here]
  rcases Duplex.receive_cases received with ⟨_, arrived, _⟩ | ⟨same, frame, rfl, _⟩
  · left
    simp [arrived]
  · right
    refine ⟨same, ?_⟩
    rw [moved]
    simp [wires, withWires, isEnd]

include memory in
theorem arrivals_move {course : Course κ Lines} {id : ConnectionId}
    (gone : (course.wires.rest id).peerGone = true) {next : Move κ} (other : next ≠ .look id) :
    ((course.move terms next).wires.rest id).toClient = (course.wires.rest id).toClient := by
  rcases course.move_cases terms next with
    ⟨_, stirs⟩ | ⟨choice, _, _, attends⟩ | ⟨_, advances⟩
  · exact stirs.arrivals id gone other
  · rw [attends]
    exact (Duplex.inward_eq_iff.mp (course.inward_attend terms memory choice id)).1
  · rw [advances]
    rcases course.lines_advance terms memory id with same | ⟨code, reason, _, _, _, closes⟩
    · exact (Duplex.inward_eq_iff.mp same).1
    · rw [closes]
      exact (Duplex.close_cases _ code reason).1

theorem readers_move {course : Course κ Lines} (none : course.dialing = 0) {id : ConnectionId}
    (next : Move κ) (gone : id ∉ course.wires.readers) :
    id ∉ (course.move terms next).wires.readers := by
  rcases course.move_cases terms next with
    ⟨_, stirs⟩ | ⟨choice, _, _, attends⟩ | ⟨_, advances⟩
  · exact fun listens => gone (stirs.readers id listens)
  · rw [attends]
    rcases (course.attend_wires terms choice).2.2.2 with same | ⟨other, opened⟩
    · rwa [same]
    · cases (dialing_eq_zero.mp none).2.2 _ opened
  · rwa [advances, (course.advance_wires terms).2.2]

theorem reports_cases (course : Course κ Lines) (next : Move κ) :
    next = .take .report ∧ course.Waits ∧
        (course.move terms next).wires.reports = course.wires.reports.tail ∨
      ¬(next = .take .report ∧ course.Waits) ∧
        ∃ fresh, (course.move terms next).wires.reports = course.wires.reports ++ fresh := by
  by_cases takes : next = .take .report ∧ course.Waits
  · left
    obtain ⟨rfl, waits⟩ := takes
    have attends : course.move terms (.take .report) = course.attend terms .report :=
      course.turn_take_of_waits terms waits
    rw [attends, (course.attend_wires terms .report).2.1]
    exact ⟨rfl, waits, rfl⟩
  · right
    refine ⟨takes, ?_⟩
    rcases course.move_cases terms next with
      ⟨_, stirs⟩ | ⟨choice, rfl, waits, attends⟩ | ⟨_, advances⟩
    · obtain ⟨fresh, grown, _⟩ := stirs.reports
      exact ⟨fresh, grown⟩
    · have other : choice ≠ .report := by
        rintro rfl
        exact takes ⟨rfl, waits⟩
      refine ⟨[], ?_⟩
      rw [attends, (course.attend_wires terms choice).2.1, if_neg other, List.append_nil]
    · refine ⟨[], ?_⟩
      rw [advances, (course.advance_wires terms).1, List.append_nil]

theorem loss_of_report {course : Course κ Lines} {id : ConnectionId} {report : TransportEvent}
    {reports : List TransportEvent} (waits : course.Waits)
    (current : course.runner.connection = some id)
    (queued : course.wires.reports = report :: reports) (ends : report.ends id = true) :
    ∃ event ∈ (course.move terms (.take .report)).work.events, event.isLoss = true := by
  have attends : course.move terms (.take .report) = course.attend terms .report :=
    course.turn_take_of_waits terms waits
  rw [attends]
  cases report with
  | closed other frame =>
    obtain rfl : other = id := of_decide_eq_true ends
    refine ⟨.closed frame, ?_, rfl⟩
    simp [attend, queued, Runner.receive, Runner.isCurrent, withWires, current, Work.on,
      Work.events]
  | failed other reason =>
    obtain rfl : other = id := of_decide_eq_true ends
    refine ⟨.failed reason, ?_, rfl⟩
    simp [attend, queued, Runner.receive, Runner.isCurrent, withWires, current, Work.on,
      Work.events]
  | _ => cases ends

/-- How many reports come before the end of a connection is reported. -/
def ahead (course : Course κ Lines) (id : ConnectionId) : Nat :=
  course.wires.reports.findIdx (TransportEvent.ends id)

/-- The report of the end of a connection comes nearer until the session takes it. -/
theorem Parting.report_move {course : Course κ Lines} {id : ConnectionId}
    (parting : course.Parting id)
    (reported : ∃ report ∈ course.wires.reports, report.ends id = true) (next : Move κ) :
    (∃ event ∈ (course.move terms next).work.events, event.isLoss = true) ∨
      (∃ report ∈ (course.move terms next).wires.reports, report.ends id = true) ∧
        (course.move terms next).ahead id ≤ course.ahead id ∧
        (next = .take .report → course.Waits →
          (course.move terms next).ahead id < course.ahead id) := by
  rcases course.reports_cases terms next with ⟨rfl, waits, taken⟩ | ⟨other, fresh, grown⟩
  · obtain ⟨report, member, ends⟩ := reported
    cases queued : course.wires.reports with
    | nil =>
      rw [queued] at member
      cases member
    | cons first rest =>
      by_cases last : first.ends id = true
      · exact Or.inl (loss_of_report terms waits parting.current queued last)
      · right
        rw [queued] at member taken
        have apart : report ≠ first := by
          rintro rfl
          exact last ends
        have less : (course.move terms (.take .report)).ahead id <
            course.ahead id := by
          simp [ahead, taken, queued, List.findIdx_cons, last]
        refine ⟨⟨report, ?_, ends⟩, Nat.le_of_lt less, fun _ _ => less⟩
        rw [taken]
        exact (List.mem_cons.mp member).resolve_left apart
  · right
    have same : (course.move terms next).ahead id = course.ahead id := by
      unfold ahead
      rw [grown, List.findIdx_append, if_pos (List.findIdx_lt_length.mpr reported)]
    obtain ⟨report, member, ends⟩ := reported
    refine ⟨⟨report, ?_, ends⟩, Nat.le_of_eq same, ?_⟩
    · rw [grown]
      exact List.mem_append_left _ member
    · exact fun takes waits => absurd ⟨takes, waits⟩ other

theorem Parting.loss_move {course : Course κ Lines} {id : ConnectionId}
    (parting : course.Parting id) (sound : course.Sound) {event : Event}
    (turned : event ∈ course.work.events) (loss : event.isLoss = true) (next : Move κ) :
    event ∈ (course.move terms next).work.events ∨ (course.move terms next).state = .closed := by
  rcases course.move_cases terms next with
    ⟨still, _⟩ | ⟨_, _, ⟨idle, _⟩, _⟩ | ⟨_, advances⟩
  · left
    rw [still.work]
    exact turned
  · rw [idle] at turned
    cases turned
  · rw [advances]
    rcases course.advance_cases terms with
      same | ⟨action, _, events, work, _, acts⟩ | ⟨first, events, work, handles⟩ | ⟨_, work, _⟩
    · rw [same]
      exact Or.inl turned
    · left
      rw [work] at turned
      rw [acts]
      exact List.mem_append_left _ turned
    · right
      obtain rfl := sound.alone work
      rw [work] at turned
      obtain rfl : event = first := List.mem_singleton.mp turned
      have calm : course.state = .connected → event.isLoss = true →
          ∃ frame, event = .closed frame ∧ frame.isNormal = true := by
        intro connected
        exact (parting.calm connected).events event (by rw [work]; exact turned)
      rw [handles]
      rcases course.runner.lifecycle.handle_parting event parting.state calm with
        over' | ⟨none, _⟩
      · exact over'
      · rw [loss] at none
        cases none
    · rw [work] at turned
      cases turned

omit [DecidableEq κ] in
theorem Parting.brings {course : Course κ Lines} {id : ConnectionId} (parting : course.Parting id)
    {gear : Gear} (ready : Rig.Ready ⟨course, gear⟩) (waits : course.Waits) :
    course.wires.Brings id := by
  obtain ⟨current, state, none, _, _⟩ := parting
  have suits : course.state.Suits (course.runner.stock gear) := ready.suits_of_waiting waits
  have heard : ∃ other, course.runner.connection = some other ∧ course.wires.Brings other := by
    rcases state with connected | closing
    · rw [connected] at suits
      exact suits.2.1
    · rw [closing] at suits
      rcases suits with ⟨line, _⟩ | ⟨_, _, heard, _⟩
      · exact absurd (current.symm.trans line) (by simp)
      · exact heard
  obtain ⟨other, same, brings⟩ := heard
  cases current.symm.trans same
  exact brings

theorem waiting_move {course : Course κ Lines} (closed : course.state = .closed)
    (idle : course.work = .waiting) (next : Move κ) :
    (course.move terms next).work = .waiting := by
  rcases course.move_cases terms next with ⟨still, _⟩ | ⟨_, _, waits, _⟩ | ⟨_, advances⟩
  · exact still.work.trans idle
  · exact absurd closed (waits_iff.mp waits).2.1
  · rw [advances]
    unfold advance
    split
    · exact idle
    · simp [idle]

/-- A connected session has a failure to handle. -/
def Fails (course : Course κ Lines) : Prop :=
  course.state = .connected ∧ ∃ reason, .failed reason ∈ course.work.events

omit [DecidableEq κ] in
theorem moveDeed_eq_ship {course : Course κ Lines} {next : Move κ} {line : ConnectionId}
    {count : Nat} (ships : course.moveDeed terms next = .ship line count) :
    course.runner.flushDeed (terms.outside course.now course.time) = .ship line count ∧
      (next = .take .flush ∧ course.Waits ∨
        next = .proceed ∧ course.runner.stranded = false ∧
          ∃ actions events, course.work = .busy (.flushQueue :: actions) events) := by
  cases next with
  | take choice =>
    simp only [moveDeed, deed] at ships
    split at ships
    · rename_i idle
      split at ships
      · cases ships
      · rename_i lives
        exact ⟨ships, Or.inl ⟨rfl, idle, Bool.eq_false_iff.mpr lives⟩⟩
    · split at ships <;> cases ships
    · cases ships
  | proceed =>
    simp only [moveDeed, deed] at ships
    split at ships
    · rename_i action actions events work
      split at ships
      · cases ships
      · rename_i going
        cases action with
        | flushQueue =>
          exact ⟨ships, Or.inr ⟨rfl, Bool.eq_false_iff.mpr going, actions, events, work⟩⟩
        | _ => cases ships
    · cases ships
  | _ => cases ships

include memory in
/-- What is written to a connection that the peer has left fails. -/
theorem Parting.fails_of_flushes {course : Course κ Lines} {id : ConnectionId}
    (parting : course.Parting id) {next : Move κ} (flushes : course.Flushes terms next) :
    (course.move terms next).Fails := by
  obtain ⟨queued, line, count, ships⟩ := flushes
  obtain ⟨ships, comes⟩ := moveDeed_eq_ship terms ships
  obtain ⟨connected, current, _⟩ := Runner.flushDeed_eq_ship terms ships
  cases parting.current.symm.trans current
  obtain ⟨_, fails, failed⟩ := course.runner.flush_memory terms memory course.now course.time
  obtain ⟨event, follows⟩ := Option.isSome_iff_exists.mp
    (fails.mpr ⟨id, count, ships, queued, Or.inr parting.gone⟩)
  obtain ⟨reason, rfl⟩ := failed event follows
  rcases comes with ⟨rfl, waits⟩ | ⟨rfl, going, actions, events, work⟩
  · have attends : course.move terms (.take .flush) = course.attend terms .flush :=
      course.turn_take_of_waits terms waits
    rw [attends]
    refine ⟨?_, reason, ?_⟩
    · exact (congrArg Lifecycle.state (attend_leaves terms waits.1 .flush).1).trans connected
    · simp [attend, follows, Work.on, Work.events]
  · have advances : course.move terms .proceed = course.advance terms := rfl
    have leaves :=
      (Runner.perform_leaves terms course.now course.time course.runner .flushQueue).1
    rw [advances]
    simp only [Course.advance, going, work, Bool.false_eq_true, ↓reduceIte]
    refine ⟨(congrArg Lifecycle.state leaves).trans connected, reason, ?_⟩
    exact List.mem_append_right _ (Option.mem_toList.mpr follows)

theorem Fails.move {course : Course κ Lines} (fails : course.Fails) (sound : course.Sound)
    (next : Move κ) :
    (course.move terms next).Fails ∨ (course.move terms next).state = .disconnected := by
  obtain ⟨connected, reason, turned⟩ := fails
  rcases course.move_cases terms next with
    ⟨still, _⟩ | ⟨_, _, ⟨idle, _⟩, _⟩ | ⟨_, advances⟩
  · left
    refine ⟨(congrArg Lifecycle.state still.lifecycle).trans connected, reason, ?_⟩
    rw [still.work]
    exact turned
  · rw [idle] at turned
    cases turned
  · rw [advances]
    rcases course.advance_cases terms with
      same | ⟨action, _, events, work, _, acts⟩ | ⟨first, events, work, handles⟩ | ⟨_, work, _⟩
    · rw [same]
      exact Or.inl ⟨connected, reason, turned⟩
    · left
      have leaves := (Runner.perform_leaves terms course.now course.time course.runner action).1
      rw [acts]
      refine ⟨(congrArg Lifecycle.state leaves).trans connected, reason, ?_⟩
      rw [work] at turned
      exact List.mem_append_left _ turned
    · right
      obtain rfl := sound.alone work
      rw [work] at turned
      obtain rfl : .failed reason = first := List.mem_singleton.mp turned
      change course.runner.lifecycle.state = .connected at connected
      rw [handles]
      simp [state, Lifecycle.handle, connected, Lifecycle.failing]
    · rw [work] at turned
      cases turned

theorem news_of_moveDeed {course : Course κ Lines} {next : Move κ}
    (tears : course.moveDeed terms next = .teardown) :
    (course.move terms next).news = course.news ++
      (course.core.registry.pending.flatMap fun request =>
        request.deliver (.error .closed)).map News.delivery := by
  cases next with
  | take choice => exact @news_of_teardown κ Lines _ terms course (.take choice) tears
  | proceed => exact @news_of_teardown κ Lines _ terms course .proceed tears
  | _ => cases tears

end Course

end Tether.Session
