import Tether.Proofs.Session.Parting

/-! A peer that closes the connection in good order ends the session, unless the session still
writes to that connection before it has read of the close: the write fails, and that counts as a
loss. -/

namespace Tether.Session

open Time (Instant Timestamp)
open Transport (ConnectionId)

variable {κ : Type}

/-- A session over connections within a program, with the moves that are made from its start on. -/
structure Run (κ : Type) where
  settings : Settings
  signing : Signing
  now : Instant
  time : Timestamp
  moves : Nat → Move κ

structure Course.Healthy (course : Course κ Lines) : Prop where
  sound : course.Sound
  settled : course.Settled
  lined : course.Lined
  orderly : course.core.Orderly
  wired : course.Wired
  ready : ∃ gear, Rig.Ready ⟨course, gear⟩

namespace Run

/-- What does not change during a run. -/
def terms (run : Run κ) : Terms Lines := .memory run.settings run.signing

variable [DecidableEq κ]

def course (run : Run κ) (moment : Nat) : Course κ Lines :=
  (Course.start run.terms run.now run.time .fresh).moment run.terms run.moves moment

/-- A move that writes frames to the connection. -/
def Flushes (run : Run κ) (moment : Nat) : Prop :=
  (run.course moment).Flushes run.terms (run.moves moment)

/-- The reader of a connection and the session itself are never kept from their moves for ever, and
a session that waits again and again takes reports again and again. -/
structure Fair (run : Run κ) (id : ConnectionId) : Prop where
  looks : ∀ moment, ∃ later, moment ≤ later ∧ run.moves later = .look id
  proceeds : ∀ moment, ∃ later, moment ≤ later ∧ run.moves later = .proceed
  takes : (∀ moment, ∃ later, moment ≤ later ∧ (run.course later).Waits) →
    ∀ moment, ∃ later, moment ≤ later ∧ (run.course later).Waits ∧
      run.moves later = .take .report

variable (run : Run κ)

theorem course_succ (moment : Nat) :
    run.course (moment + 1) = (run.course moment).move run.terms (run.moves moment) := rfl

theorem course_of_play (kept : Course κ Lines → Prop)
    (plays : ∀ turns, kept ((Course.start run.terms run.now run.time .fresh).play run.terms turns))
    (moment : Nat) : kept (run.course moment) := by
  obtain ⟨turns, same⟩ := Course.moment_eq_play run.terms
    (Course.start run.terms run.now run.time .fresh) run.moves moment
  unfold course
  rw [same]
  exact plays turns

theorem healthy (moment : Nat) : (run.course moment).Healthy := by
  have sound := run.course_of_play _ (Course.sound_play run.terms run.now run.time .fresh)
  have settled := run.course_of_play _ (Course.settled_play run.terms run.now run.time .fresh)
  refine ⟨sound moment, settled moment, ?_, ?_, ?_, ?_⟩
  · exact run.course_of_play _ (Course.lined_play run.terms run.now run.time .fresh) moment
  · exact run.course_of_play (fun course => course.core.Orderly)
      (Course.orderly_play run.terms run.now run.time .fresh) moment
  · induction moment with
    | zero => exact Course.wired_start run.terms run.now run.time
    | succ moment wired => exact wired.move run.terms rfl (sound moment) (settled moment) _
  · apply run.course_of_play fun course => ∃ gear, Rig.Ready ⟨course, gear⟩
    intro turns
    let rig : Rig κ Lines := (Rig.start run.terms run.now run.time .fresh).play run.terms turns
    have same : rig.course =
        (Course.start run.terms run.now run.time .fresh).play run.terms turns :=
      Rig.course_play run.terms _ turns
    rw [← same]
    exact ⟨rig.gear, Rig.ready_play run.terms run.now run.time .fresh turns⟩

/-- A busy session gets back to waiting, unless it breaks off. -/
theorem waits_again {since : Nat}
    (going : ∀ moment, since ≤ moment → (run.course moment).runner.stranded = false)
    (proceeds : ∀ moment, ∃ later, moment ≤ later ∧ run.moves later = .proceed) :
    ∃ moment, since ≤ moment ∧ (run.course moment).work = .waiting := by
  apply exists_of_rank (fun moment => (run.course moment).work.effort) since
  · intro moment after busy
    exact (Course.effort_move run.terms (going moment after) busy _).1
  · intro moment after
    obtain ⟨later, le, proceeds⟩ := proceeds moment
    refine ⟨later, le, ?_⟩
    by_cases idle : (run.course later).work = .waiting
    · exact Or.inl idle
    · exact Or.inr ((Course.effort_move run.terms (going later (Nat.le_trans after le)) idle
        (run.moves later)).2 proceeds)

section

variable {run} {since : Nat} {id : ConnectionId}

/-- A session whose connection was closed goes on to its end as long as it does not write. -/
theorem parting_or_closed (begins : (run.course since).Parting id)
    (quiet : ∀ moment, since ≤ moment → ¬run.Flushes moment) {moment : Nat}
    (after : since ≤ moment) :
    (run.course moment).Parting id ∨ (run.course moment).state = .closed := by
  induction after with
  | refl => exact Or.inl begins
  | @step moment after ih =>
    rcases ih with parting | closed
    · obtain ⟨sound, settled, _, _, wired, _⟩ := run.healthy moment
      exact parting.move run.terms rfl wired sound settled (quiet moment after)
    · exact Or.inr (Course.closed_move run.terms closed _)

theorem closed_stays (closed : (run.course since).state = .closed) {moment : Nat}
    (after : since ≤ moment) : (run.course moment).state = .closed := by
  induction after with
  | refl => exact closed
  | step after ih => exact Course.closed_move run.terms ih _

theorem reader_stops (fair : run.Fair id)
    (parting : ∀ moment, since ≤ moment → (run.course moment).Parting id) :
    ∃ moment, since ≤ moment ∧ id ∉ (run.course moment).wires.readers := by
  apply exists_of_rank (fun moment => ((run.course moment).wires.rest id).toClient.length) since
  · intro moment after listens
    have gone := (parting moment after).gone
    by_cases looks : run.moves moment = .look id
    · rw [course_succ, looks]
      rcases Course.arrivals_look run.terms gone (Decidable.not_not.mp listens) with
        less | ⟨same, _⟩
      · exact Nat.le_of_lt less
      · exact Nat.le_of_eq (by rw [same])
    · apply Nat.le_of_eq
      rw [course_succ, Course.arrivals_move run.terms rfl gone looks]
  · intro moment after
    obtain ⟨later, le, looks⟩ := fair.looks moment
    by_cases listens : id ∈ (run.course later).wires.readers
    · have gone := (parting later (Nat.le_trans after le)).gone
      rcases Course.arrivals_look run.terms gone listens with less | ⟨_, stops⟩
      · refine ⟨later, le, Or.inr ?_⟩
        rw [course_succ, looks]
        exact less
      · refine ⟨later + 1, Nat.le_succ_of_le le, Or.inl ?_⟩
        rw [course_succ, looks]
        exact stops
    · exact ⟨later, le, Or.inl listens⟩

theorem reader_stays_out (parting : ∀ moment, since ≤ moment → (run.course moment).Parting id)
    (stopped : id ∉ (run.course since).wires.readers) {moment : Nat} (after : since ≤ moment) :
    id ∉ (run.course moment).wires.readers := by
  induction after with
  | refl => exact stopped
  | @step moment after ih =>
    exact Course.readers_move run.terms (parting moment after).dialing _ ih

theorem report_is_taken (fair : run.Fair id)
    (waits : ∀ moment, ∃ later, moment ≤ later ∧ (run.course later).Waits)
    (parting : ∀ moment, since ≤ moment → (run.course moment).Parting id)
    (reported : ∃ report ∈ (run.course since).wires.reports, report.ends id = true) :
    ∃ moment, since ≤ moment ∧
      ∃ event ∈ (run.course moment).work.events, event.isLoss = true := by
  apply Classical.byContradiction
  intro never
  have step {moment : Nat} (after : since ≤ moment)
      (reported : ∃ report ∈ (run.course moment).wires.reports, report.ends id = true) :=
    ((parting moment after).report_move run.terms reported (run.moves moment)).resolve_left
      fun turned => never ⟨moment + 1, Nat.le_succ_of_le after, turned⟩
  have stays {moment : Nat} (after : since ≤ moment) :
      ∃ report ∈ (run.course moment).wires.reports, report.ends id = true := by
    induction after with
    | refl => exact reported
    | step after ih => exact (step after ih).1
  apply never
  -- Each report that is taken brings the one that ends the connection nearer.
  apply exists_of_rank (fun moment => (run.course moment).ahead id) since
  · intro moment after _
    exact (step after (stays after)).2.1
  · intro moment after
    obtain ⟨later, le, waiting, takes⟩ := fair.takes waits moment
    have past := Nat.le_trans after le
    exact ⟨later, le, Or.inr ((step past (stays past)).2.2 takes waiting)⟩

/-- A session whose connection was closed, and that does not write to it, is over at some time. -/
theorem comes_to_close (fair : run.Fair id) (begins : (run.course since).Parting id)
    (quiet : ∀ moment, since ≤ moment → ¬run.Flushes moment) :
    ∃ moment, since ≤ moment ∧ (run.course moment).state = .closed := by
  apply Classical.byContradiction
  intro never
  have parting (moment : Nat) (after : since ≤ moment) : (run.course moment).Parting id :=
    (parting_or_closed begins quiet after).resolve_right fun closed => never ⟨moment, after, closed⟩
  have going (moment : Nat) (after : since ≤ moment) :
      (run.course moment).runner.stranded = false := by
    apply Bool.eq_false_iff.mpr
    intro stranded
    have state := (parting moment after).state
    rw [(run.healthy moment).settled.stranded stranded] at state
    rcases state with other | other <;> cases other
  have idle (moment : Nat) (after : since ≤ moment) :
      ∃ later, moment ≤ later ∧ (run.course later).work = .waiting :=
    run.waits_again (fun later le => going later (Nat.le_trans after le)) fair.proceeds
  have waits (moment : Nat) : ∃ later, moment ≤ later ∧ (run.course later).Waits := by
    obtain ⟨later, le, waiting⟩ := idle (max since moment) (Nat.le_max_left _ _)
    have after := Nat.le_trans (Nat.le_max_left since moment) le
    exact ⟨later, Nat.le_trans (Nat.le_max_right since moment) le, Course.waits_iff.mpr
      ⟨waiting, fun closed => never ⟨later, after, closed⟩, going later after⟩⟩
  -- Once the reader has stopped, the end of the connection is among the reports or was taken.
  obtain ⟨stop, after, stopped⟩ := reader_stops fair parting
  have past (moment : Nat) (later : stop ≤ moment) : (run.course moment).Parting id :=
    parting moment (Nat.le_trans after later)
  obtain ⟨wait, le, waiting⟩ := waits stop
  obtain ⟨gear, ready⟩ := (run.healthy wait).ready
  have reported : ∃ report ∈ (run.course wait).wires.reports, report.ends id = true :=
    ((past wait le).brings ready waiting).resolve_left (reader_stays_out past stopped le)
  obtain ⟨turn, ge, event, turned, loss⟩ := report_is_taken fair waits
    (fun moment later => past moment (Nat.le_trans le later)) reported
  have stays {moment : Nat} (later : turn ≤ moment) :
      event ∈ (run.course moment).work.events := by
    induction later with
    | refl => exact turned
    | @step moment later ih =>
      have here := Nat.le_trans after (Nat.le_trans le (Nat.le_trans ge later))
      refine ((parting moment here).loss_move run.terms (run.healthy moment).sound ih loss
        (run.moves moment)).resolve_right ?_
      exact fun closed => never ⟨moment + 1, Nat.le_succ_of_le here, closed⟩
  -- The loss would stay for ever, but the session gets back to waiting, with nothing to handle.
  obtain ⟨last, later, rests⟩ := idle turn (Nat.le_trans after (Nat.le_trans le ge))
  have still := stays later
  rw [rests] at still
  cases still

/-- A session that is over gets done with what it has still to do, and leaves empty books. -/
theorem comes_to_rest (fair : run.Fair id) (closed : (run.course since).state = .closed) :
    ∃ last, since ≤ last ∧ ∀ moment, last ≤ moment →
      (run.course moment).state = .closed ∧ (run.course moment).work = .waiting ∧
        (run.course moment).core.Torn := by
  have going (moment : Nat) (after : since ≤ moment) :
      (run.course moment).runner.stranded = false := by
    apply Bool.eq_false_iff.mpr
    intro stranded
    have state := (run.healthy moment).settled.stranded stranded
    rw [closed_stays closed after] at state
    cases state
  obtain ⟨last, after, rests⟩ := run.waits_again going fair.proceeds
  refine ⟨last, after, ?_⟩
  intro moment later
  have over' := closed_stays closed (Nat.le_trans after later)
  have idle : (run.course moment).work = .waiting := by
    induction later with
    | refl => exact rests
    | @step moment later ih =>
      have before := closed_stays closed (Nat.le_trans after later)
      exact Course.waiting_move run.terms before (ih before) _
  refine ⟨over', idle, ?_⟩
  rcases (run.healthy moment).settled.torn (Or.inr over') with fails | torn
  · rw [idle] at fails
    cases fails
  · exact torn

/-- A session that writes to a connection that was closed loses it. -/
theorem disconnects_of_flushes (fair : run.Fair id) (begins : (run.course since).Parting id)
    {moment : Nat} (after : since ≤ moment) (flushes : run.Flushes moment) :
    ∃ later, since ≤ later ∧ (run.course later).state = .disconnected := by
  apply Classical.byContradiction
  intro never
  have stays {moment : Nat} (after : since ≤ moment) (fails : (run.course moment).Fails) :
      (run.course (moment + 1)).Fails :=
    (fails.move run.terms (run.healthy moment).sound (run.moves moment)).resolve_right
      fun lost => never ⟨moment + 1, Nat.le_succ_of_le after, lost⟩
  -- Without a write the session goes on to its end, and the first one fails.
  have phases {moment : Nat} (after : since ≤ moment) :
      (run.course moment).Parting id ∨ (run.course moment).state = .closed ∨
        (run.course moment).Fails := by
    induction after with
    | refl => exact Or.inl begins
    | @step moment after ih =>
      rcases ih with parting | closed | fails
      · by_cases writes : run.Flushes moment
        · exact Or.inr (Or.inr (parting.fails_of_flushes run.terms rfl writes))
        · obtain ⟨sound, settled, _, _, wired, _⟩ := run.healthy moment
          exact (parting.move run.terms rfl wired sound settled writes).imp_right Or.inl
      · exact Or.inr (Or.inl (Course.closed_move run.terms closed _))
      · exact Or.inr (Or.inr (stays after fails))
  have fails : (run.course (moment + 1)).Fails := by
    rcases phases after with parting | closed | fails
    · exact parting.fails_of_flushes run.terms rfl flushes
    · obtain ⟨_, line, count, ships⟩ := flushes
      have connected :=
        (Runner.flushDeed_eq_ship run.terms (Course.moveDeed_eq_ship run.terms ships).1).1
      exact absurd (closed.symm.trans connected) (by simp)
    · exact stays after fails
  have fails {later : Nat} (past : moment + 1 ≤ later) : (run.course later).Fails := by
    induction past with
    | refl => exact fails
    | @step later past ih => exact stays (Nat.le_trans (Nat.le_succ_of_le after) past) ih
  have going (later : Nat) (past : moment + 1 ≤ later) :
      (run.course later).runner.stranded = false := by
    apply Bool.eq_false_iff.mpr
    intro stranded
    have state := (run.healthy later).settled.stranded stranded
    exact absurd ((fails past).1.symm.trans state) (by simp)
  obtain ⟨last, past, rests⟩ := run.waits_again going fair.proceeds
  obtain ⟨_, reason, turned⟩ := fails past
  rw [rests] at turned
  cases turned

end

/-- A request that waits at a moment waits on until something ends it: an answer, its time, or the
end of the session, of which its caller is told unless it has given up. -/
def Ends (since : Nat) (request : Pending κ) : Prop :=
  ∃ moment, since ≤ moment ∧ ∃ last ∈ (run.course moment).core.registry.pending,
    request.Lasts last ∧
      (last.awaited = true ↔ request.awaited = true ∧
        ∀ between, since ≤ between → between < moment →
          run.moves between ≠ .abandon request.caller) ∧
      (run.course (moment + 1)).core.registry.find? request.id = none ∧
      let deed := (run.course moment).moveDeed run.terms (run.moves moment)
      deed.Ends (run.course moment).now last ∧
        (deed = .teardown → last.awaited = true →
          ∃ told, (run.course (moment + 1)).news = (run.course moment).news ++ told ∧
            .delivery ⟨request.caller, .error .closed⟩ ∈ told)

variable {run}

theorem waits_or_ends {since moment : Nat} (after : since ≤ moment) {request : Pending κ}
    (waits : request ∈ (run.course since).core.registry.pending) :
    (∃ last ∈ (run.course moment).core.registry.pending, request.Lasts last ∧
        (last.awaited = true ↔ request.awaited = true ∧
          ∀ between, since ≤ between → between < moment →
            run.moves between ≠ .abandon request.caller)) ∨
      run.Ends since request := by
  induction after with
  | refl =>
    refine Or.inl ⟨request, waits, rfl, ?_⟩
    constructor
    · exact fun still => ⟨still, fun between le less => absurd less (Nat.not_lt.mpr le)⟩
    · exact And.left
  | @step moment after ih =>
    rcases ih with ⟨last, waiting, lasts, awaited⟩ | ended
    · have named : last.id = request.id := by rw [lasts]
      have called : last.caller = request.caller := by rw [lasts]
      have orderly := (run.healthy moment).orderly
      have next := (run.course moment).core_move run.terms (run.moves moment)
      rcases orderly.lasts_after run.terms (run.course moment).now (run.course moment).time
        ((run.course moment).moveDeed run.terms (run.moves moment)) waiting with
        ⟨later, stays, further, listens⟩ | ⟨ends, gone⟩
      · rw [← next] at stays
        refine Or.inl ⟨later, stays, lasts.trans further, ?_⟩
        rw [listens, awaited, called, ne_eq, Course.moveDeed_eq_abandon]
        constructor
        · rintro ⟨⟨still, before⟩, now⟩
          refine ⟨still, ?_⟩
          intro between le less
          rcases Nat.lt_succ_iff_lt_or_eq.mp less with earlier | rfl
          · exact before between le earlier
          · exact now
        · rintro ⟨still, before⟩
          refine ⟨⟨still, fun between le less => before between le (Nat.lt_succ_of_lt less)⟩, ?_⟩
          exact before moment after (Nat.lt_succ_self moment)
      · rw [← next, named] at gone
        refine Or.inr ⟨moment, after, last, waiting, lasts, awaited, gone, ends, ?_⟩
        intro tears listens
        refine ⟨_, Course.news_of_moveDeed run.terms tears, ?_⟩
        apply List.mem_map_of_mem
        apply List.mem_flatMap.mpr
        refine ⟨last, waiting, ?_⟩
        simp [Pending.deliver, listens, called]
    · exact Or.inr ended

/-- The peer closes the connection of a connected session in good order, and readers and session
are not kept from their moves for ever. Then the session never gets back to being disconnected if
and only if it does not write frames to that connection any more. If it does not, it never makes an
attempt again, it is over at some time and stays so with empty books, and every request that waits
at the close or later was answered, has expired or was given up, or is told that the session is
closed. -/
theorem normal_close_is_final (run : Run κ) {close : Nat} {id : ConnectionId} {reason : String}
    (closes : run.moves close = .peer id (.close Transport.CloseCode.normal reason))
    (connected : (run.course close).state = .connected)
    (current : (run.course close).runner.connection = some id)
    (there : ((run.course close).wires.rest id).peerGone = false) (fair : run.Fair id) :
    ((∀ moment, close ≤ moment → (run.course moment).state ≠ .disconnected) ↔
        ∀ moment, close < moment → ¬run.Flushes moment) ∧
      ((∀ moment, close < moment → ¬run.Flushes moment) →
        (∀ moment, close ≤ moment → (run.course moment).dialing = 0) ∧
          (∃ last, ∀ moment, last ≤ moment →
            (run.course moment).state = .closed ∧ (run.course moment).work = .waiting ∧
              (run.course moment).core.Torn) ∧
          ∀ since, close ≤ since → ∀ request ∈ (run.course since).core.registry.pending,
            run.Ends since request) := by
  obtain ⟨sound, _, lined, _, wired, _⟩ := run.healthy close
  have begins : (run.course (close + 1)).Parting id := by
    rw [course_succ, closes]
    exact Course.parting_of_close run.terms wired sound lined connected current there reason
  have settles (quiet : ∀ moment, close < moment → ¬run.Flushes moment) {moment : Nat}
      (after : close ≤ moment) : (run.course moment).state ≠ .disconnected := by
    rcases Nat.eq_or_lt_of_le after with rfl | after
    · simp [connected]
    · rcases parting_or_closed begins quiet after with parting | closed
      · rcases parting.state with state | state <;> simp [state]
      · simp [closed]
  refine ⟨⟨?_, fun quiet _ after => settles quiet after⟩, ?_⟩
  · intro holds moment after writes
    obtain ⟨later, past, lost⟩ := disconnects_of_flushes fair begins after writes
    exact holds later (Nat.le_of_succ_le past) lost
  · intro quiet
    obtain ⟨over', after, closed⟩ := comes_to_close fair begins quiet
    obtain ⟨last, past, rests⟩ := comes_to_rest fair closed
    refine ⟨?_, ⟨last, rests⟩, ?_⟩
    · intro moment after
      induction after with
      | refl => exact sound.dialing_of_connected connected
      | @step moment after ih => exact Course.dialing_move run.terms ih (settles quiet after) _
    · intro since after request waits
      -- Nothing waits any more at the end, so something has ended the request before.
      have empty := (rests (max last since) (Nat.le_max_left _ _)).2.2.2
      rcases waits_or_ends (Nat.le_max_right last since) waits with ⟨_, waiting, _⟩ | ends
      · rw [empty] at waiting
        cases waiting
      · exact ends

/-- The reader of the first connection and the session itself take turns. -/
def turnAbout (moment : Nat) : Move Nat :=
  if moment % 3 = 0 then .look ⟨1⟩ else if moment % 3 = 1 then .take .report else .proceed

/-- A session with the usual settings that makes some moves, and whose reader and itself then take
turns. -/
def following (moves : List (Move Nat)) : Run Nat where
  settings := .standard
  signing := ⟨Crypto.ed25519, none⟩
  now := ⟨0⟩
  time := ⟨0⟩
  moves moment := moves.getD moment (turnAbout moment)

section

variable {moves : List (Move Nat)} {since : Nat}

theorem moves_following {moment : Nat} (after : moves.length ≤ moment) :
    (following moves).moves moment = turnAbout moment := by
  simp [following, after]

theorem course_following (past : moves.length ≤ since)
    (idle : ((following moves).course since).work = .waiting)
    (nothing : ((following moves).course since).wires.reports = [])
    (stopped : ⟨1⟩ ∉ ((following moves).course since).wires.readers) {moment : Nat}
    (after : since ≤ moment) :
    (following moves).course moment = (following moves).course since := by
  induction after with
  | refl => rfl
  | @step moment after ih =>
    rw [course_succ, moves_following (Nat.le_trans past after), ih]
    unfold turnAbout
    split
    · exact Course.move_look_of_not_mem _ _ stopped
    · split
      · change ((following moves).course since).turn _ (.take .report) = _
        rcases Course.turn_take_cases (following moves).terms ((following moves).course since)
          .report with same | ⟨_, attends⟩
        · exact same
        · rw [attends]
          simp [Course.attend, nothing]
      · change ((following moves).course since).advance _ = _
        simp [Course.advance, idle]

theorem fair_following (past : moves.length ≤ since)
    (still : ∀ moment, since ≤ moment →
      (following moves).course moment = (following moves).course since) :
    (following moves).Fair ⟨1⟩ := by
  have turn (moment rest : Nat) (less : rest < 3) :
      ∃ later, max since moment ≤ later ∧
        (following moves).moves later = turnAbout rest := by
    refine ⟨3 * max since moment + rest, by omega, ?_⟩
    rw [moves_following (by omega)]
    simp [turnAbout, Nat.mod_eq_of_lt less]
  refine ⟨?_, ?_, ?_⟩
  · intro moment
    obtain ⟨later, le, looks⟩ := turn moment 0 (by decide)
    exact ⟨later, Nat.le_trans (Nat.le_max_right _ _) le, looks⟩
  · intro moment
    obtain ⟨later, le, proceeds⟩ := turn moment 2 (by decide)
    exact ⟨later, Nat.le_trans (Nat.le_max_right _ _) le, proceeds⟩
  · intro often moment
    obtain ⟨later, le, takes⟩ := turn moment 1 (by decide)
    obtain ⟨other, past, waits⟩ := often since
    refine ⟨later, Nat.le_trans (Nat.le_max_right _ _) le, ?_, takes⟩
    rw [still later (Nat.le_trans (Nat.le_max_left _ _) le), ← still other past]
    exact waits

end

/-- A session connects and writes a request. -/
def asking : List (Move Nat) :=
  [.proceed, .proceed, .proceed, .openLine ⟨1⟩, .take .report, .proceed, .proceed, .proceed,
    .submit .ping 7, .take .flush]

/-- The peer closes the connection. -/
def dismissed : Run Nat :=
  following (asking ++ [.peer ⟨1⟩ (.close Transport.CloseCode.normal "bye")])

/-- The session is over, and the caller is told so. -/
theorem normal_close_is_final_dismissed :
    (dismissed.moves 10 = .peer ⟨1⟩ (.close Transport.CloseCode.normal "bye") ∧
        (dismissed.course 10).state = .connected ∧
        (dismissed.course 10).runner.connection = some ⟨1⟩ ∧
        ((dismissed.course 10).wires.rest ⟨1⟩).peerGone = false ∧ dismissed.Fair ⟨1⟩ ∧
        ∀ moment, 10 < moment → ¬dismissed.Flushes moment) ∧
      (∀ moment, 10 ≤ moment → (dismissed.course moment).state ≠ .disconnected) ∧
      (∃ last, ∀ moment, last ≤ moment → (dismissed.course moment).state = .closed) ∧
      ∃ request ∈ (dismissed.course 10).core.registry.pending,
        request.caller = 7 ∧ dismissed.Ends 10 request := by
  have closes : dismissed.moves 10 = .peer ⟨1⟩ (.close Transport.CloseCode.normal "bye") := rfl
  have connected : (dismissed.course 10).state = .connected := rfl
  have current : (dismissed.course 10).runner.connection = some ⟨1⟩ := rfl
  have there : ((dismissed.course 10).wires.rest ⟨1⟩).peerGone = false := rfl
  have still {moment : Nat} (after : 24 ≤ moment) :
      dismissed.course moment = dismissed.course 24 :=
    course_following (by decide) rfl rfl (by decide) after
  have fair : dismissed.Fair ⟨1⟩ := fair_following (by decide) fun _ => still
  have quiet (moment : Nat) (after : 10 < moment) : ¬dismissed.Flushes moment := by
    rintro ⟨some, _⟩
    apply some
    by_cases late : 24 ≤ moment
    · rw [still late]
      rfl
    · have early : ∀ moment < 24, 10 < moment →
          (dismissed.course moment).core.outbox.frames = [] := by decide
      exact early moment (Nat.lt_of_not_le late) after
  obtain ⟨settles, holds⟩ :=
    normal_close_is_final dismissed closes connected current there fair
  obtain ⟨_, ⟨last, rests⟩, ends⟩ := holds quiet
  refine ⟨⟨closes, connected, current, there, fair, quiet⟩, settles.mpr quiet, ?_, ?_⟩
  · exact ⟨last, fun moment after => (rests moment after).1⟩
  · have waits : ∃ request ∈ (dismissed.course 10).core.registry.pending, request.caller = 7 := by
      decide
    obtain ⟨request, waits, caller⟩ := waits
    exact ⟨request, waits, caller, ends 10 (Nat.le_refl _) request waits⟩

/-- A request is submitted before the peer closes the connection, and the session, which does not
know of the close yet, writes it. So it loses the connection, and in time opens another. -/
def hasty : Run Nat :=
  following (asking ++
    [.submit .ping 8, .peer ⟨1⟩ (.close Transport.CloseCode.normal "bye"), .take .flush, .proceed,
      .proceed, .proceed, .proceed, .proceed, .proceed, .tick ⟨60000000000⟩ ⟨0⟩, .take .delay,
      .proceed, .proceed, .proceed, .openLine ⟨2⟩, .take .report, .proceed, .proceed, .proceed])

/-- The session makes another attempt and stays connected, and both callers wait still. -/
theorem reconnects_after_normal_close :
    (hasty.moves 11 = .peer ⟨1⟩ (.close Transport.CloseCode.normal "bye") ∧
        (hasty.course 11).state = .connected ∧
        (hasty.course 11).runner.connection = some ⟨1⟩ ∧
        ((hasty.course 11).wires.rest ⟨1⟩).peerGone = false ∧ hasty.Fair ⟨1⟩) ∧
      (∃ moment, 11 < moment ∧ (hasty.course moment).dialing = 1) ∧
      ∀ moment, 32 ≤ moment → (hasty.course moment).state = .connected ∧
        (hasty.course moment).runner.connection = some ⟨2⟩ ∧
        (hasty.course moment).core.registry.pending.map (·.caller) = [7, 8] := by
  have still {moment : Nat} (after : 32 ≤ moment) : hasty.course moment = hasty.course 32 :=
    course_following (by decide) rfl rfl (by decide) after
  refine ⟨⟨rfl, rfl, rfl, rfl, fair_following (by decide) fun _ => still⟩, ⟨22, by decide, rfl⟩, ?_⟩
  intro moment after
  rw [still after]
  exact ⟨rfl, rfl, rfl⟩

end Run

end Tether.Session
