import Mathlib.Data.List.Nodup
import Tether.Proofs.Session.Phase

namespace Tether.Session

open Time (Instant Timestamp)
open Transport (ConnectionId)

variable {κ σ : Type}

/-- The connection that a report says was opened. -/
def TransportEvent.opening? : TransportEvent → Option ConnectionId
  | .opened id => some id
  | _ => none

namespace Course

/-- The connections whose opening the session has not learned of. -/
def unheard (course : Course κ σ) : List ConnectionId :=
  course.wires.reports.filterMap TransportEvent.opening?

/-- Connections that the session has not learned of are unused, and each will be reported once. -/
structure Lined (course : Course κ σ) : Prop where
  distinct : course.unheard.Nodup
  opened : ∀ line ∈ course.unheard, line ∈ course.wires.opened
  unused : ∀ line ∈ course.unheard, ∀ frame, (line, frame) ∉ course.wires.accepted
  unowned : ∀ line ∈ course.unheard, course.runner.connection ≠ some line
  written : ∀ line frame, (line, frame) ∈ course.wires.accepted → line ∈ course.wires.opened
  owned : ∀ line, course.runner.connection = some line → line ∈ course.wires.opened

theorem lined_start (terms : Terms σ) (now : Instant) (time : Timestamp) (rest : σ) :
    (start terms now time rest : Course κ σ).Lined := by
  constructor <;> simp [start, unheard, wires, Runner.start]

/-- The session has learned of the opening of this connection. -/
def Heard (course : Course κ σ) (line : ConnectionId) : Prop :=
  line ∈ course.wires.opened ∧ line ∉ course.unheard

theorem Lined.heard {course : Course κ σ} (lined : course.Lined) {line : ConnectionId}
    (current : course.runner.connection = some line) : course.Heard line :=
  ⟨lined.owned line current, fun member => lined.unowned line member current⟩

theorem Lined.congr {course next : Course κ σ} (lined : course.Lined)
    (unheard : next.unheard = course.unheard) (opened : next.wires.opened = course.wires.opened)
    (connection : next.runner.connection = course.runner.connection ∨
      next.runner.connection = none)
    (accepted : ∀ line frame, (line, frame) ∈ next.wires.accepted →
      (line, frame) ∈ course.wires.accepted ∨ course.runner.connection = some line) :
    next.Lined := by
  refine ⟨?_, ?_, ?_, ?_, ?_, ?_⟩
  · rw [unheard]
    exact lined.distinct
  · rw [unheard, opened]
    exact lined.opened
  · rw [unheard]
    intro line member frame taken
    rcases accepted line frame taken with before | current
    · exact lined.unused line member frame before
    · exact lined.unowned line member current
  · rw [unheard]
    intro line member current
    rcases connection with same | none
    · exact lined.unowned line member (same ▸ current)
    · rw [none] at current
      cases current
  · intro line frame taken
    rw [opened]
    rcases accepted line frame taken with before | current
    · exact lined.written line frame before
    · exact lined.owned line current
  · intro line current
    rw [opened]
    rcases connection with same | none
    · exact lined.owned line (same ▸ current)
    · rw [none] at current
      cases current

/-- A connection that opens is new, and is unheard of until the session takes the report. -/
private theorem Lined.opening {course next : Course κ σ} (lined : course.Lined) {id : ConnectionId}
    (fresh : id ∉ course.wires.opened) (opened : next.wires.opened = id :: course.wires.opened)
    (unheard : next.unheard = course.unheard ++ [id])
    (connection : next.runner.connection = course.runner.connection)
    (accepted : ∀ line frame, (line, frame) ∈ next.wires.accepted →
      (line, frame) ∈ course.wires.accepted ∨ course.runner.connection = some line) :
    next.Lined := by
  have known {line : ConnectionId} {frame : Bytes}
      (taken : (line, frame) ∈ next.wires.accepted) : line ∈ course.wires.opened :=
    (accepted line frame taken).elim (lined.written line frame) (lined.owned line)
  refine ⟨?_, ?_, ?_, ?_, ?_, ?_⟩
  · rw [unheard, List.nodup_append]
    refine ⟨lined.distinct, List.nodup_singleton _, ?_⟩
    rintro other member _ new rfl
    exact fresh (List.mem_singleton.mp new ▸ lined.opened other member)
  · rw [unheard, opened]
    intro line member
    rcases List.mem_append.mp member with before | new
    · exact List.mem_cons_of_mem _ (lined.opened line before)
    · exact List.mem_cons.mpr (Or.inl (List.mem_singleton.mp new))
  · rw [unheard]
    intro line member frame taken
    rcases List.mem_append.mp member with before | new
    · rcases accepted line frame taken with earlier | current
      · exact lined.unused line before frame earlier
      · exact lined.unowned line before current
    · exact fresh (List.mem_singleton.mp new ▸ known taken)
  · rw [unheard, connection]
    intro line member current
    rcases List.mem_append.mp member with before | new
    · exact lined.unowned line before current
    · exact fresh (List.mem_singleton.mp new ▸ lined.owned line current)
  · rw [opened]
    intro line frame taken
    exact List.mem_cons_of_mem _ (known taken)
  · rw [opened, connection]
    intro line current
    exact List.mem_cons_of_mem _ (lined.owned line current)

private theorem Lined.takeUp {course next : Course κ σ} (lined : course.Lined) {id : ConnectionId}
    (unheard : course.unheard = id :: next.unheard)
    (opened : next.wires.opened = course.wires.opened)
    (accepted : ∀ line frame, (line, frame) ∈ next.wires.accepted →
      (line, frame) ∈ course.wires.accepted ∨ course.runner.connection = some line)
    (connection : next.runner.connection = some id) : next.Lined := by
  have distinct := lined.distinct
  rw [unheard] at distinct
  obtain ⟨apart, distinct⟩ := List.nodup_cons.mp distinct
  have before {line : ConnectionId} (member : line ∈ next.unheard) : line ∈ course.unheard := by
    rw [unheard]
    exact List.mem_cons_of_mem _ member
  refine ⟨distinct, ?_, ?_, ?_, ?_, ?_⟩
  · rw [opened]
    exact fun line member => lined.opened line (before member)
  · intro line member frame taken
    rcases accepted line frame taken with earlier | current
    · exact lined.unused line (before member) frame earlier
    · exact lined.unowned line (before member) current
  · intro line member current
    rw [connection] at current
    cases current
    exact apart member
  · rw [opened]
    intro line frame taken
    exact (accepted line frame taken).elim (lined.written line frame) (lined.owned line)
  · rw [opened]
    intro line current
    rw [connection] at current
    cases current
    exact lined.opened id (by rw [unheard]; exact List.mem_cons_self)

/-- What a turn makes of connections: none is new to the session, one is opened, or the session
learns of one and takes it up. -/
inductive Relines (course later : Course κ σ) : Prop where
  | keeps (opened : later.wires.opened = course.wires.opened)
      (unheard : later.unheard = course.unheard)
      (readers : ∀ line ∈ later.wires.readers, line ∈ course.wires.readers)
      (connection : later.runner.connection = course.runner.connection ∨
        later.runner.connection = none) :
      Relines course later
  | opens (id : ConnectionId) (fresh : id ∉ course.wires.opened)
      (opened : later.wires.opened = id :: course.wires.opened)
      (unheard : later.unheard = course.unheard ++ [id])
      (readers : later.wires.readers = course.wires.readers)
      (connection : later.runner.connection = course.runner.connection) :
      Relines course later
  | takesUp (id : ConnectionId) (unheard : course.unheard = id :: later.unheard)
      (opened : later.wires.opened = course.wires.opened)
      (readers : later.wires.readers = id :: course.wires.readers)
      (connection : later.runner.connection = some id) :
      Relines course later

theorem Relines.refl (course : Course κ σ) : course.Relines course :=
  .keeps rfl rfl (fun _ listens => listens) (Or.inl rfl)

variable (terms : Terms σ)

theorem relines_attend (course : Course κ σ) (choice : Choice) :
    course.Relines (course.attend terms choice) := by
  cases choice with
  | flush =>
    simp only [attend]
    rcases Runner.flush_cases terms course.now course.time course.runner with
      ⟨same, _⟩ | ⟨line, count, rest, failure, _, _, _, flushed, _⟩
    · rw [same]
      exact .keeps rfl rfl (fun _ listens => listens) (Or.inl rfl)
    · rw [flushed]
      exact .keeps rfl rfl (fun _ listens => listens) (Or.inl rfl)
  | disconnect => exact .keeps rfl rfl (fun _ listens => listens) (Or.inl rfl)
  | sweep => exact .keeps rfl rfl (fun _ listens => listens) (Or.inl rfl)
  | delay =>
    simp only [attend]
    split
    · exact .keeps rfl rfl (fun _ listens => listens) (Or.inl rfl)
    · exact .refl course
  | report =>
    simp only [attend]
    cases queued : course.wires.reports with
    | nil => exact .refl course
    | cons report reports =>
      have shown : course.unheard =
          report.opening?.toList ++ reports.filterMap TransportEvent.opening? := by
        rw [unheard, queued, List.filterMap_cons]
        cases report.opening? <;> rfl
      cases report with
      | opened id =>
        simp only [Runner.receive, Runner.dropTransport]
        split <;> exact .takesUp id shown rfl rfl rfl
      | _ => exact .keeps rfl shown.symm (fun _ listens => listens) (Or.inl rfl)

theorem relines_advance (course : Course κ σ) : course.Relines (course.advance terms) := by
  obtain ⟨reports, opened, readers⟩ := course.advance_wires terms
  refine .keeps opened (congrArg (List.filterMap TransportEvent.opening?) reports)
    (fun _ listens => readers ▸ listens) ?_
  rcases course.advance_cases terms with
    same | ⟨action, _, _, _, _, acts⟩ | ⟨_, _, _, handles⟩ | ⟨_, _, publishes⟩
  · exact Or.inl (by rw [same])
  · have connection :=
      (Runner.perform_leaves terms course.now course.time course.runner action).2.1
    simp only [acts, connection]
    split
    · exact Or.inr rfl
    · exact Or.inl rfl
  · exact Or.inl (by rw [handles])
  · exact Or.inl (by rw [publishes])

private theorem relines_read (course : Course κ σ) (id : ConnectionId) (last : Bool)
    {report : TransportEvent} (other : report.opening? = none) :
    course.Relines (course.read id last report) := by
  by_cases listened : id ∈ course.wires.readers
  · rw [show course.read id last report = _ from if_pos listened]
    refine .keeps rfl (by simp [unheard, wires, withWires, other]) ?_ (Or.inl rfl)
    intro line listens
    cases last with
    | true => exact List.mem_of_mem_filter listens
    | false => exact listens
  · rw [show course.read id last report = course from if_neg listened]
    exact .refl course

variable [DecidableEq κ]

theorem relines_turn (course : Course κ σ) (next : Turn κ σ) :
    course.Relines (course.turn terms next) := by
  cases next with
  | submit message caller => exact .keeps rfl rfl (fun _ listens => listens) (Or.inl rfl)
  | notify message =>
    simp only [Course.turn]
    split
    · exact .keeps rfl rfl (fun _ listens => listens) (Or.inl rfl)
    · exact .refl course
  | abandon caller => exact .keeps rfl rfl (fun _ listens => listens) (Or.inl rfl)
  | tick now time => exact .keeps rfl rfl (fun _ listens => listens) (Or.inl rfl)
  | happen change => exact .keeps rfl rfl (fun _ listens => listens) (Or.inl rfl)
  | openLine id =>
    simp only [Course.turn]
    split
    · exact .refl course
    · rename_i fresh
      rcases course.endAttempt_cases [id] (.opened id) with same | ⟨_, ends⟩
      · rw [same]
        exact .refl course
      · rw [ends]
        refine .opens id fresh rfl ?_ rfl rfl
        simp [unheard, wires, withWires, TransportEvent.opening?]
  | refuse reason =>
    simp only [Course.turn]
    rcases course.endAttempt_cases [] (.refused reason) with same | ⟨_, ends⟩
    · rw [same]
      exact .refl course
    · rw [ends]
      refine .keeps rfl ?_ (fun _ listens => listens) (Or.inl rfl)
      simp [unheard, wires, withWires, TransportEvent.opening?]
  | arrive id frame => exact course.relines_read id false rfl
  | hangUp id frame => exact course.relines_read id true rfl
  | breakLine id reason => exact course.relines_read id true rfl
  | take choice =>
    rcases course.turn_take_cases terms choice with same | ⟨_, attends⟩
    · rw [same]
      exact .refl course
    · rw [attends]
      exact course.relines_attend terms choice
  | proceed => exact course.relines_advance terms

theorem accepted_turn (course : Course κ σ) (next : Turn κ σ) (line : ConnectionId) (frame : Bytes)
    (taken : (line, frame) ∈ (course.turn terms next).wires.accepted) :
    (line, frame) ∈ course.wires.accepted ∨ course.runner.connection = some line := by
  rw [(turn_does terms course next).2] at taken
  refine (List.mem_append.mp taken).imp_right fun new => ?_
  cases deed : course.deed terms next with
  | ship current count =>
    rw [deed] at new
    obtain ⟨_, _, same⟩ := List.mem_map.mp new
    obtain rfl : current = line := congrArg Prod.fst same
    exact (deed_eq_ship terms deed).2.1
  | _ =>
    rw [deed] at new
    cases new

/-- A turn keeps connections from being used twice. -/
theorem Lined.turn {course : Course κ σ} (lined : course.Lined) (next : Turn κ σ) :
    (course.turn terms next).Lined := by
  have accepted := accepted_turn terms course next
  cases course.relines_turn terms next with
  | keeps opened unheard _ connection => exact lined.congr unheard opened connection accepted
  | opens id fresh opened unheard _ connection =>
    exact lined.opening fresh opened unheard connection accepted
  | takesUp id unheard opened _ connection => exact lined.takeUp unheard opened accepted connection

theorem lined_play (now : Instant) (time : Timestamp) (rest : σ) (turns : List (Turn κ σ)) :
    ((start terms now time rest).play terms turns).Lined :=
  play_keeps terms Lined (fun _ next lined => lined.turn terms next) _ turns
    (lined_start terms now time rest)

/-- A connection that a session comes to have was never written to. -/
theorem Lined.unused_of_new {course : Course κ σ} (lined : course.Lined) (next : Turn κ σ)
    {line : ConnectionId} (current : (course.turn terms next).runner.connection = some line)
    (new : course.runner.connection ≠ some line) (frame : Bytes) :
    (line, frame) ∉ (course.turn terms next).wires.accepted := by
  intro taken
  have before := (accepted_turn terms course next line frame taken).resolve_right new
  cases course.relines_turn terms next with
  | keeps _ _ _ connection =>
    rcases connection with same | none
    · exact new (same ▸ current)
    · rw [none] at current
      cases current
  | opens _ _ _ _ _ connection => exact new (connection ▸ current)
  | takesUp other unheard _ _ connection =>
    rw [connection] at current
    cases current
    exact lined.unused line (by rw [unheard]; exact List.mem_cons_self) frame before

theorem Heard.turn {course : Course κ σ} {line : ConnectionId} (heard : course.Heard line)
    (next : Turn κ σ) : (course.turn terms next).Heard line := by
  obtain ⟨known, learned⟩ := heard
  unfold Heard
  cases course.relines_turn terms next with
  | keeps opened unheard _ _ =>
    rw [opened, unheard]
    exact ⟨known, learned⟩
  | opens id fresh opened unheard _ _ =>
    rw [opened, unheard]
    refine ⟨List.mem_cons_of_mem _ known, ?_⟩
    intro member
    rcases List.mem_append.mp member with before | new
    · exact learned before
    · exact fresh (List.mem_singleton.mp new ▸ known)
  | takesUp id unheard opened _ _ =>
    rw [unheard] at learned
    rw [opened]
    exact ⟨known, fun member => learned (List.mem_cons_of_mem _ member)⟩

theorem Heard.stays_gone {course : Course κ σ} {line : ConnectionId} (heard : course.Heard line)
    (gone : course.runner.connection ≠ some line) (next : Turn κ σ) :
    (course.turn terms next).runner.connection ≠ some line := by
  intro back
  cases course.relines_turn terms next with
  | keeps _ _ _ connection =>
    rcases connection with same | none
    · exact gone (same ▸ back)
    · rw [none] at back
      cases back
  | opens _ _ _ _ _ connection => exact gone (connection ▸ back)
  | takesUp other unheard _ _ connection =>
    rw [connection] at back
    cases back
    exact heard.2 (by rw [unheard]; exact List.mem_cons_self)

theorem Heard.play {course : Course κ σ} {line : ConnectionId} (heard : course.Heard line)
    (turns : List (Turn κ σ)) : (course.play terms turns).Heard line :=
  play_keeps terms (Heard · line) (fun _ next kept => kept.turn terms next) course turns heard

/-- A connection that was let go never comes back. -/
theorem Heard.gone_for_good {course : Course κ σ} {line : ConnectionId} (heard : course.Heard line)
    (gone : course.runner.connection ≠ some line) (turns : List (Turn κ σ)) :
    (course.play terms turns).runner.connection ≠ some line := by
  refine (play_keeps terms (fun later => later.Heard line ∧ later.runner.connection ≠ some line)
    ?_ course turns ⟨heard, gone⟩).2
  rintro later next ⟨learned, absent⟩
  exact ⟨learned.turn terms next, learned.stays_gone terms absent next⟩

theorem heard_of_reader (now : Instant) (time : Timestamp) (rest : σ) (turns : List (Turn κ σ)) :
    ∀ line ∈ ((start terms now time rest).play terms turns).wires.readers,
      ((start terms now time rest).play terms turns).Heard line := by
  refine (play_keeps terms
    (fun course => course.Lined ∧ ∀ line ∈ course.wires.readers, course.Heard line) ?_ _ turns
    ⟨lined_start terms now time rest, fun line listens => nomatch listens⟩).2
  rintro course next ⟨lined, listening⟩
  refine ⟨lined.turn terms next, ?_⟩
  intro line listens
  cases course.relines_turn terms next with
  | keeps _ _ readers _ => exact (listening line (readers line listens)).turn terms next
  | opens _ _ _ _ readers _ => exact (listening line (readers ▸ listens)).turn terms next
  | takesUp id _ _ readers connection =>
    rw [readers] at listens
    rcases List.mem_cons.mp listens with rfl | before
    · exact (lined.turn terms next).heard connection
    · exact (listening line before).turn terms next

end Course

end Tether.Session
