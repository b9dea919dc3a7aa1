import Tether.Proofs.Session.Circle
import Tether.Proofs.Session.Hearing

/-! An answer reaches the request that waits under its id. That is the one whose frame it answers,
unless ids have come full circle since that request was made: ids have one byte, and a late answer
cannot be told from one to a later request under the same id. -/

namespace Tether.Session

open Time (Instant Timestamp)
open Transport (ConnectionId)

variable {κ σ : Type}

/-- Whether a request ends without an answer. -/
def Outcome.isUnanswered : Outcome → Bool
  | .error (.timeout _) => true
  | .error .closed => true
  | _ => false

/-- Callers are told only of requests that end without an answer. -/
def Unanswered (told : List (News κ)) : Prop :=
  ∀ delivery, .delivery delivery ∈ told → delivery.outcome.isUnanswered

def Core.Dispatched.news (result : Core.Dispatched κ) : List (News κ) :=
  result.deliveries.map News.delivery ++ result.heard.toList.map News.heard

theorem Core.Dispatched.mem_deliveries {result : Core.Dispatched κ} {delivery : Delivery κ}
    (told : .delivery delivery ∈ result.news) : delivery ∈ result.deliveries := by
  rcases List.mem_append.mp told with delivered | heard
  · obtain ⟨_, member, same⟩ := List.mem_map.mp delivered
    cases same
    exact member
  · obtain ⟨_, _, same⟩ := List.mem_map.mp heard
    cases same

theorem unanswered_deliver (pending : List (Pending κ)) {outcome : Pending κ → Outcome}
    (unanswered : ∀ request, (outcome request).isUnanswered) :
    Unanswered ((pending.flatMap fun request => request.deliver (outcome request)).map
      News.delivery) := by
  intro delivery told
  obtain ⟨_, member, same⟩ := List.mem_map.mp told
  cases same
  obtain ⟨request, _, delivered⟩ := List.mem_flatMap.mp member
  unfold Pending.deliver at delivered
  split at delivered
  · rw [List.mem_singleton.mp delivered]
    exact unanswered request
  · cases delivered

theorem Runner.news_perform (outside : Surroundings σ) (runner : Runner κ σ) (action : Action)
    (other : ∀ frame, action ≠ .dispatch frame) :
    Unanswered (runner.perform outside action).news := by
  cases action with
  | dispatch frame => exact absurd rfl (other frame)
  | failPending => exact unanswered_deliver runner.core.registry.pending fun _ => rfl
  | scheduleReconnect delay =>
    simp only [perform]
    split <;> simp [Unanswered]
  | _ => simp [perform, Unanswered]

namespace Course

variable (terms : Terms σ)

theorem news_attend (course : Course κ σ) (choice : Choice) :
    ∃ told, (course.attend terms choice).news = course.news ++ told ∧ Unanswered told := by
  cases choice with
  | sweep => exact ⟨_, rfl, unanswered_deliver _ fun _ => rfl⟩
  | flush => exact ⟨[], (List.append_nil _).symm, by simp [Unanswered]⟩
  | disconnect => exact ⟨[], (List.append_nil _).symm, by simp [Unanswered]⟩
  | report =>
    refine ⟨[], ?_, by simp [Unanswered]⟩
    simp only [attend, List.append_nil]
    split <;> rfl
  | delay =>
    refine ⟨[], ?_, by simp [Unanswered]⟩
    simp only [attend, List.append_nil]
    split <;> rfl

variable [DecidableEq κ]

/-- What a session is told of or handles has arrived in the turns so far. What it handles arrived on
the connection that it has. -/
structure Heeds (course : Course κ σ) (turns : List (Turn κ σ)) : Prop where
  reports : ∀ line frame, .message line frame ∈ course.wires.reports → .arrive line frame ∈ turns
  minds : course.Minds fun held _ frame => ∃ line, held = some line ∧ .arrive line frame ∈ turns

theorem heeds_play (now : Instant) (time : Timestamp) (rest : σ) (turns : List (Turn κ σ))
    (count : Nat) :
    ((start terms now time rest).play terms (turns.take count)).Heeds (turns.take count) := by
  refine Turn.take_induction turns count ?_ ?_
  · refine ⟨?_, minds_start terms now time rest⟩
    intro line frame reported
    cases reported
  · intro count next _ heeds
    rw [play_concat]
    refine ⟨?_, ?_⟩
    · intro line frame reported
      rcases message_mem_reports_turn terms reported with older | ⟨rfl, _⟩
      · exact List.mem_append_left _ (heeds.reports line frame older)
      · exact List.mem_append_right _ List.mem_cons_self
    · refine heeds.minds.turn terms (sound_play terms now time rest _) next ?_ ?_
      · rintro _ _ frame ⟨line, current, came⟩
        exact ⟨line, current, List.mem_append_left _ came⟩
      · intro _ _ line frame reports first _
        have reported := heeds.reports line frame (by rw [first]; exact List.mem_cons_self)
        exact ⟨line, rfl, List.mem_append_left _ reported⟩

theorem news_of_dispatch {course : Course κ σ} {next : Turn κ σ} {frame : Bytes}
    (dispatches : course.deed terms next = .dispatch frame) :
    (course.turn terms next).news =
      course.news ++ (course.core.dispatch terms.signing frame).news := by
  obtain ⟨actions, events, rfl, runs, work⟩ := deed_eq_dispatch terms dispatches
  simp only [Course.turn, advance, work, runs]
  rfl

/-- Turns that hand out no frame tell callers only of requests that end without an answer. -/
theorem news_turn {course : Course κ σ} {next : Turn κ σ}
    (other : ∀ frame, course.deed terms next ≠ .dispatch frame) :
    ∃ told, (course.turn terms next).news = course.news ++ told ∧ Unanswered told := by
  have quiet {later : Course κ σ} (same : later.news = course.news) :
      ∃ told, later.news = course.news ++ told ∧ Unanswered told :=
    ⟨[], by rw [same, List.append_nil], by simp [Unanswered]⟩
  rcases course.turn_cases terms next with still | ⟨choice, _, _, attends⟩ | ⟨rfl, advances⟩
  · exact quiet still.news
  · rw [attends]
    exact course.news_attend terms choice
  · rw [advances]
    rcases course.advance_cases terms with
      same | ⟨action, _, _, work, runs, acts⟩ | ⟨_, _, _, handles⟩ | ⟨_, _, publishes⟩
    · exact quiet (by rw [same])
    · refine ⟨_, by rw [acts], ?_⟩
      refine Runner.news_perform _ course.runner action fun frame same => other frame ?_
      simp [deed, work, runs, Runner.deed, same]
    · exact quiet (by rw [handles])
    · refine ⟨_, by rw [publishes], ?_⟩
      simp only [Runner.publish]
      split <;> simp [Unanswered]

end Course

namespace Chronicle

variable (terms : Terms σ) [DecidableEq κ]

/-- What was written is the frame of this submission, or that of an earlier one under the same id,
and every other id was in use between the two. -/
def Concerns (start : Course κ σ) (turns : List (Turn κ σ)) (chronicle : Chronicle κ σ)
    (number : Nat) (writing : Writing) : Prop :=
  writing.entry.number = number ∨
    ∃ earlier later, chronicle.ledger.submissions[writing.entry.number]? = some earlier ∧
      chronicle.ledger.submissions[number]? = some later ∧ earlier.moment < later.moment ∧
      start.Circles terms turns earlier.moment (later.moment + 1) writing.entry.frame.id

/-- Whatever was written under an id concerns the latest submission under it. -/
theorem Rounds.concerns {start : Course κ σ} {turns : List (Turn κ σ)} {chronicle : Chronicle κ σ}
    (rounds : chronicle.Rounds terms start turns) (faithful : chronicle.Faithful)
    {writing : Writing} (written : writing ∈ chronicle.ledger.writings)
    (proper : writing.entry.frame.id ≠ .none) {later : Submission κ}
    (last : chronicle.ledger.submissions[chronicle.ledger.holder writing.entry.frame.id]? =
      some later) (same : later.frame.id = writing.entry.frame.id) :
    chronicle.Concerns terms start turns (chronicle.ledger.holder writing.entry.frame.id)
      writing := by
  obtain ⟨earlier, there, frame⟩ := faithful.written writing written
  have bound := faithful.latest _ _ there
  rw [frame] at bound
  rcases Nat.eq_or_lt_of_le bound with this | before
  · exact Or.inl this
  · obtain ⟨inside, first⟩ := List.getElem?_eq_some_iff.mp there
    obtain ⟨within, second⟩ := List.getElem?_eq_some_iff.mp last
    have ordered := List.pairwise_iff_getElem.mp faithful.ordered _ _ inside within before
    have circle := List.pairwise_iff_getElem.mp rounds.pairs _ _ inside within before
    rw [first, second] at ordered circle
    rw [frame] at circle
    exact Or.inr ⟨earlier, later, there, last, ordered, circle same.symm proper⟩

/-- A turn ends a request: the latest that was handed in under its id. -/
structure Ends (start : Course κ σ) (turns : List (Turn κ σ)) (chronicle next : Chronicle κ σ)
    (told : List (News κ)) (request : Pending κ) : Prop where
  waits : request ∈ chronicle.course.core.registry.pending
  frees : next.course.core = { chronicle.course.core with
    registry := chronicle.course.core.registry.free request.id }
  /-- Only its caller is told. -/
  tells : ∀ delivery, .delivery delivery ∈ told → delivery.caller = request.caller
  latest : ∃ submission,
    chronicle.ledger.submissions[chronicle.ledger.holder request.id]? = some submission ∧
      submission.frame = ⟨request.id, request.frame⟩ ∧ submission.caller = some request.caller
  /-- What was written under its id concerns it. -/
  concerns : ∀ writing ∈ chronicle.ledger.writings, writing.entry.frame.id = request.id →
    chronicle.Concerns terms start turns (chronicle.ledger.holder request.id) writing

/-- A frame is handed out. It has arrived on the connection that the session has, and comes to
nothing or ends the request that waits under its id. -/
def Answers (start : Course κ σ) (turns : List (Turn κ σ)) (chronicle next : Chronicle κ σ)
    (told : List (News κ)) (frame : Bytes) : Prop :=
  (∃ line, chronicle.course.runner.connection = some line ∧ .arrive line frame ∈ turns) ∧
    ((next.course.core = chronicle.course.core ∧ ∀ delivery, .delivery delivery ∉ told) ∨
      ∃ request, request.id = Envelope.requestIdOf frame ∧
        Ends terms start turns chronicle next told request)

variable {terms} in
/-- A frame that is handed out answers the latest request under its id, or no one. -/
theorem Rounds.answers {start : Course κ σ} {turns : List (Turn κ σ)} {chronicle : Chronicle κ σ}
    (rounds : chronicle.Rounds terms start turns) (faithful : chronicle.Faithful)
    (heeds : chronicle.course.Heeds turns) {next : Turn κ σ} {frame : Bytes}
    (dispatches : chronicle.course.deed terms next = .dispatch frame) :
    Answers terms start turns chronicle (chronicle.turn terms next)
      (chronicle.course.core.dispatch terms.signing frame).news frame := by
  obtain ⟨actions, events, _, _, work⟩ := Course.deed_eq_dispatch terms dispatches
  obtain ⟨_, _, line, current, arrived⟩ :=
    heeds.minds.actions frame (by rw [work]; exact List.mem_cons_self)
  refine ⟨⟨line, current, arrived⟩, ?_⟩
  have core := (chronicle.course.turn_does terms next).1
  rw [dispatches] at core
  rcases chronicle.course.core.dispatch_cases terms.signing frame with
    ⟨same, none, _⟩ | ⟨request, outcome, proper, found, freed, reached⟩
  · refine Or.inl ⟨core.trans same, ?_⟩
    intro delivery told
    have member := Core.Dispatched.mem_deliveries told
    rw [none] at member
    cases member
  · obtain ⟨waits, id⟩ := Registry.find?_eq_some found
    rw [← id] at proper freed
    obtain ⟨submission, last, same, caller⟩ := faithful.holds request waits
    refine Or.inr ⟨request, id, waits, core.trans freed, ?_, ⟨submission, last, same, caller⟩, ?_⟩
    · intro delivery told
      have member := Core.Dispatched.mem_deliveries told
      rw [reached] at member
      unfold Pending.deliver at member
      split at member
      · rw [List.mem_singleton.mp member]
      · cases member
    · intro writing written under
      rw [← under] at proper last ⊢
      exact rounds.concerns terms faithful written proper last (by rw [same, under])

/-- In any turn callers are told that their requests end without an answer, or a frame is handed
out. That frame arrived on the connection that the session has, and it ends the request that waits
under its id, or nothing. What was written under that id is the frame of that request, unless every
other id was in use after the frame was handed in and before the request was. -/
theorem answer_reaches_its_request (now : Instant) (time : Timestamp) (rest : σ)
    (turns : List (Turn κ σ)) (next : Turn κ σ) :
    ((start terms now time rest).play terms turns).Faithful ∧
      ∃ told, (((start terms now time rest).play terms turns).turn terms next).course.news =
          ((start terms now time rest).play terms turns).course.news ++ told ∧
        (((∀ frame,
              ((start terms now time rest).play terms turns).course.deed terms next ≠
                .dispatch frame) ∧ Unanswered told) ∨
          ∃ frame,
            ((start terms now time rest).play terms turns).course.deed terms next =
              .dispatch frame ∧
            Answers terms (Course.start terms now time rest) turns
              ((start terms now time rest).play terms turns)
              (((start terms now time rest).play terms turns).turn terms next) told frame) := by
  have faithful := faithful_play terms now time rest turns
  have rounds := rounds_play terms now time rest turns turns.length
  have heeds := Course.heeds_play terms now time rest turns turns.length
  have played := course_play terms (start terms now time rest) turns
  change _ = (Course.start terms now time rest).play terms turns at played
  rw [List.take_length] at rounds heeds
  rw [← played] at heeds
  refine ⟨faithful, ?_⟩
  by_cases dispatches : ∃ frame,
      ((start terms now time rest).play terms turns).course.deed terms next = .dispatch frame
  · obtain ⟨frame, dispatches⟩ := dispatches
    exact ⟨_, Course.news_of_dispatch terms dispatches,
      Or.inr ⟨frame, dispatches, rounds.answers faithful heeds dispatches⟩⟩
  · have other := not_exists.mp dispatches
    obtain ⟨told, news, unanswered⟩ := Course.news_turn terms other
    exact ⟨told, news, Or.inl ⟨other, unanswered⟩⟩

/-- An answer that says how the server is, under the first id. -/
def lateAnswer : Bytes := [0, 1, 1, 0, 0, 0, 0, 0, 0, 0, 0, 0]

/-- A ping is sent and times out. Each of the other ids is taken once, by a query that nothing can
sign. Another ping then gets the first id again, and the answer to the first ping arrives. -/
def wrapped : List (Turn Nat Unit) :=
  [.proceed, .proceed, .proceed, .openLine ⟨1⟩, .take .report, .proceed, .proceed, .proceed,
    .submit .ping 0, .take .flush, .proceed, .tick ⟨30000000000⟩ ⟨30000⟩, .take .sweep] ++
  List.replicate 254 (.submit .decayQuery 1) ++
  [.submit .ping 2, .arrive ⟨1⟩ lateAnswer, .take .report, .proceed]

/-- Only the frame of caller 0 was ever written when its answer goes to caller 2. -/
theorem late_answer_goes_astray :
    (((start Terms.plain ⟨0⟩ ⟨0⟩ ()).play Terms.plain wrapped).ledger.writings.map
        fun writing => (writing.line, writing.entry.number, writing.entry.frame.id)) =
        [(⟨1⟩, 0, Envelope.requestIdOf lateAnswer)] ∧
      ((start Terms.plain ⟨0⟩ ⟨0⟩ ()).play Terms.plain wrapped).ledger.submissions.map
        Submission.caller = [some 0, some 2] ∧
      ((Course.start Terms.plain ⟨0⟩ ⟨0⟩ ()).play Terms.plain (wrapped ++ [.proceed])).news =
        ((Course.start Terms.plain ⟨0⟩ ⟨0⟩ ()).play Terms.plain wrapped).news ++
          [.delivery ⟨2, .reply ⟨.status ⟨⟨0⟩, .ok⟩, none⟩⟩] := by
  refine ⟨?_, ?_, ?_⟩
  · decide +kernel
  · decide +kernel
  · decide +kernel

end Chronicle

end Tether.Session
