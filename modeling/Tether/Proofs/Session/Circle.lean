import Tether.Proofs.Session.Ledger

namespace Tether.Session

open Time (Instant Timestamp)

variable {κ σ : Type}

/-- How many steps lead from one id to another. -/
def distance (one other : RequestId) : Nat := (other.byte - one.byte).toNat

theorem distance_lt (one other : RequestId) : distance one other < 256 := UInt8.toNat_lt _

theorem distance_self (id : RequestId) : distance id id = 0 := by simp [distance]

theorem eq_of_distance_eq {start one other : RequestId}
    (same : distance start one = distance start other) : one = other := by
  have bytes := UInt8.toNat_inj.mp same
  rw [UInt8.sub_left_inj] at bytes
  exact RequestId.byte_inj.mp bytes

theorem byte_of_distance_lt {one cursor other : RequestId}
    (ahead : distance one cursor < distance one other) :
    other.byte =
      cursor.byte + 1 + UInt8.ofNat (distance one other - distance one cursor - 1) := by
  unfold distance at ahead ⊢
  apply UInt8.toNat_inj.mp
  simp only [UInt8.toNat_add, UInt8.toNat_sub, UInt8.toNat_ofNat', UInt8.toNat_one] at ahead ⊢
  have one := one.byte.toNat_lt
  have cursor := cursor.byte.toNat_lt
  have other := other.byte.toNat_lt
  omega

/-- The steps add up as long as they do not lead all the way around. -/
theorem distance_of_steps {one cursor id : RequestId} {steps : Nat}
    (place : id.byte = cursor.byte + 1 + UInt8.ofNat steps)
    (short : distance one cursor + 1 + steps < 256) :
    distance one id = distance one cursor + 1 + steps := by
  unfold distance at short ⊢
  rw [place]
  simp only [UInt8.toNat_add, UInt8.toNat_sub, UInt8.toNat_ofNat', UInt8.toNat_one] at short ⊢
  have one := one.byte.toNat_lt
  have cursor := cursor.byte.toNat_lt
  omega

/-- The search for a free id passes over ids that are taken. Seen from any id, it ends before that
id, or it has passed over all that were left. -/
theorem Registry.nextFree_passes {inUse : IdSet} (cursor : RequestId) {id : RequestId}
    (found : nextFree inUse cursor.byte 256 = some id) (one : RequestId) :
    (id ≠ one ∧ ∀ other, other ≠ .none → distance one other ≤ distance one id →
        distance one other ≤ distance one cursor ∨ other ∈ inUse ∨ other = id) ∨
      ∀ other, other ≠ .none →
        distance one other ≤ distance one cursor ∨ other ∈ inUse ∨ other = id := by
  obtain ⟨_, _, passed, _, place, skipped⟩ := nextFree_eq_some found
  have between (other : RequestId) (proper : other ≠ .none)
      (reached : distance one other ≤ distance one cursor + 1 + passed) :
      distance one other ≤ distance one cursor ∨ other ∈ inUse ∨ other = id := by
    by_cases behind : distance one other ≤ distance one cursor
    · exact Or.inl behind
    · have spot := byte_of_distance_lt (Nat.lt_of_not_le behind)
      right
      by_cases last : distance one other - distance one cursor - 1 = passed
      · right
        rw [last, ← place] at spot
        exact RequestId.byte_inj.mp spot
      · left
        have passes := skipped (distance one other - distance one cursor - 1) (by omega)
        rw [← spot] at passes
        exact passes.resolve_left proper
  by_cases short : distance one cursor + 1 + passed < 256
  · have reached := distance_of_steps place short
    refine Or.inl ⟨?_, ?_⟩
    · rintro rfl
      rw [distance_self] at reached
      omega
    · intro other proper near
      exact between other proper (by omega)
  · right
    intro other proper
    have bound := distance_lt one other
    exact between other proper (by omega)

/-- On the way from an id to the cursor every other id was used. The way may lead around the
circle. -/
def Rounded (used : RequestId → Prop) (id cursor : RequestId) : Prop :=
  (∀ other, other ≠ .none → other ≠ id → used other) ∨
    ∀ other, other ≠ .none → other ≠ id → distance id other ≤ distance id cursor → used other

namespace Rounded

variable {used more : RequestId → Prop} {id cursor : RequestId}

theorem self (used : RequestId → Prop) (id : RequestId) : Rounded used id id := by
  right
  intro other _ apart near
  rw [distance_self] at near
  exact absurd (eq_of_distance_eq ((Nat.le_zero.mp near).trans (distance_self id).symm)) apart

theorem mono (rounded : Rounded used id cursor) (grows : ∀ other, used other → more other) :
    Rounded more id cursor := by
  rcases rounded with circle | arc
  · exact Or.inl fun other proper apart => grows other (circle other proper apart)
  · exact Or.inr fun other proper apart near => grows other (arc other proper apart near)

/-- The search for a free id goes on from the cursor to that id, or it comes past the id where the
way began. -/
theorem search (rounded : Rounded used id cursor) {inUse : IdSet} {taken : RequestId}
    (found : Registry.nextFree inUse cursor.byte 256 = some taken)
    (grows : ∀ other, used other ∨ other ∈ inUse ∨ other = taken → more other) :
    (taken ≠ id ∧ Rounded more id taken) ∨ ∀ other, other ≠ .none → other ≠ id → more other := by
  have passed (other : RequestId) (proper : other ≠ .none) (apart : other ≠ id)
      (passes : distance id other ≤ distance id cursor ∨ other ∈ inUse ∨ other = taken) :
      more other := by
    rcases passes with near | busy
    · rcases rounded with circle | arc
      · exact grows other (Or.inl (circle other proper apart))
      · exact grows other (Or.inl (arc other proper apart near))
    · exact grows other (Or.inr busy)
  rcases Registry.nextFree_passes cursor found id with ⟨apart, short⟩ | round
  · exact Or.inl ⟨apart, Or.inr fun other proper differs near =>
      passed other proper differs (short other proper near)⟩
  · exact Or.inr fun other proper apart => passed other proper apart (round other proper)

end Rounded

namespace Core

/-- The deed is a submission that takes an id, whether or not it is let in. -/
def Takes (core : Core κ) (deed : Deed κ) (id : RequestId) : Prop :=
  ∃ message caller taken, deed = .submit message caller ∧ core.closed = false ∧
    core.registry.allocate = .ok (id, taken)

/-- A submission that takes an id leaves the cursor there, even if it fails. -/
theorem cursor_of_takes [DecidableEq κ] (terms : Terms σ) {core : Core κ} {deed : Deed κ}
    {id : RequestId} (takes : core.Takes deed id) (now : Instant) (time : Timestamp) :
    (core.after terms now time deed).registry.cursor = id.byte := by
  obtain ⟨message, caller, taken, rfl, runs, allocated⟩ := takes
  have cursor : taken.cursor = id.byte := by rw [(Registry.allocate_eq_ok allocated).2]
  simp only [Core.after, submit, runs, allocated, Bool.false_eq_true, ↓reduceIte]
  cases terms.settings.deadline? now with
  | none => exact cursor
  | some deadline =>
    simp only
    cases enlisted :
        enlist terms.signing ⟨taken, core.outbox, false⟩ id deadline message caller with
    | error cause => exact cursor
    | ok next =>
      obtain ⟨_, _, rfl⟩ := enlist_eq_ok enlisted
      exact cursor

theorem cursor_after [DecidableEq κ] (terms : Terms σ) (core : Core κ) (now : Instant)
    (time : Timestamp) {deed : Deed κ} (none : ∀ id, ¬ core.Takes deed id) :
    (core.after terms now time deed).registry.cursor = core.registry.cursor := by
  cases deed with
  | submit message caller =>
    simp only [Core.after]
    cases closed : core.closed with
    | true => simp [submit, closed]
    | false =>
      cases allocated : core.registry.allocate with
      | error cause => simp [submit, closed, allocated]
      | ok pair => exact absurd ⟨message, caller, pair.2, rfl, closed, allocated⟩ (none pair.1)
  | notify message => rw [registry_after_notify]
  | dispatch frame =>
    simp only [Core.after]
    rcases core.dispatch_cases terms.signing frame with ⟨same, _⟩ | ⟨_, _, _, _, freed, _⟩
    · rw [same]
    · rw [freed, Registry.cursor_free]
  | sweep => exact Registry.cursor_freeAll core.registry _
  | teardown => simp only [Core.after, failPending, Registry.rejectAll_eq, Registry.cursor_freeAll]
  | nothing => rfl
  | abandon caller => rfl
  | ship line count => rfl
  | requeue => rfl

end Core

namespace Course

variable [DecidableEq κ] (terms : Terms σ)

/-- An id was in use at some moment of a course: it was taken when the turn came, or the turn took
it. -/
def Uses (course : Course κ σ) (turns : List (Turn κ σ)) (moment : Nat) (id : RequestId) : Prop :=
  ∃ next, turns[moment]? = some next ∧
    (id ∈ (course.play terms (turns.take moment)).core.registry.inUse ∨
      (course.play terms (turns.take moment)).core.Takes
        ((course.play terms (turns.take moment)).deed terms next) id)

/-- An id was in use at some moment after `since` and before `bound`. -/
def UsesWithin (course : Course κ σ) (turns : List (Turn κ σ)) (since bound : Nat)
    (id : RequestId) : Prop :=
  ∃ moment, since < moment ∧ moment < bound ∧ course.Uses terms turns moment id

/-- Every id but one was in use at some moment after `since` and before `bound`. -/
def Circles (course : Course κ σ) (turns : List (Turn κ σ)) (since bound : Nat) (id : RequestId) :
    Prop :=
  ∀ other, other ≠ .none → other ≠ id → course.UsesWithin terms turns since bound other

theorem UsesWithin.mono {course : Course κ σ} {turns : List (Turn κ σ)} {since bound : Nat}
    {id : RequestId} (uses : course.UsesWithin terms turns since bound id) {later : Nat}
    (further : bound ≤ later) : course.UsesWithin terms turns since later id := by
  obtain ⟨moment, after, before, used⟩ := uses
  exact ⟨moment, after, Nat.lt_of_lt_of_le before further, used⟩

/-- On the way from an id to the cursor, every other id was in use at some moment after `since` and
before `bound`. The way may lead around the circle. -/
def Reaches (course : Course κ σ) (turns : List (Turn κ σ)) (since bound : Nat)
    (id cursor : RequestId) : Prop :=
  course.Circles terms turns since bound id ∨
    ∀ other, other ≠ .none → other ≠ id → distance id other ≤ distance id cursor →
      course.UsesWithin terms turns since bound other

theorem Reaches.self (course : Course κ σ) (turns : List (Turn κ σ)) (since bound : Nat)
    (id : RequestId) : course.Reaches terms turns since bound id id :=
  Rounded.self _ id

theorem Reaches.later {course : Course κ σ} {turns : List (Turn κ σ)} {since bound : Nat}
    {id cursor : RequestId} (reaches : course.Reaches terms turns since bound id cursor) :
    course.Reaches terms turns since (bound + 1) id cursor :=
  Rounded.mono reaches fun _ used => used.mono terms (Nat.le_succ _)

theorem Reaches.takes {course played : Course κ σ} {turns : List (Turn κ σ)} {since bound : Nat}
    {id : RequestId}
    (reaches : course.Reaches terms turns since bound id ⟨played.core.registry.cursor⟩)
    (past : since < bound) {next : Turn κ σ} (there : turns[bound]? = some next)
    (here : played = course.play terms (turns.take bound)) {taken : RequestId}
    (takes : played.core.Takes (played.deed terms next) taken) :
    (taken ≠ id ∧ course.Reaches terms turns since (bound + 1) id taken) ∨
      course.Circles terms turns since (bound + 1) id := by
  have ⟨_, _, _, _, _, allocated⟩ := takes
  refine Rounded.search reaches (Registry.allocate_eq_ok allocated).1 ?_
  rintro other (used | busy | rfl)
  · exact used.mono terms (Nat.le_succ _)
  · exact ⟨bound, past, Nat.lt_succ_self _, next, there, here ▸ Or.inl busy⟩
  · exact ⟨bound, past, Nat.lt_succ_self _, next, there, here ▸ Or.inr takes⟩

end Course

namespace Ledger

variable {ledger : Ledger κ} {core : Core κ}

/-- A turn hands in at most one frame, and that of a request is under an id that the turn takes. -/
theorem submissions_follow [DecidableEq κ] (terms : Terms σ) (ledger : Ledger κ) (core : Core κ)
    (now : Instant) (time : Timestamp) (deed : Deed κ) :
    (ledger.follow core (core.after terms now time deed) now deed).submissions =
        ledger.submissions ∨
      ∃ frame caller,
        (ledger.follow core (core.after terms now time deed) now deed).submissions =
          ledger.submissions ++ [⟨frame, caller, ledger.moment⟩] ∧
        (frame.id ≠ .none → core.Takes deed frame.id) := by
  have quiet (caller : Option κ) {next : Core κ}
      (same : next.outbox.frames = core.outbox.frames) :
      (ledger.enter caller next.outbox.frames[core.outbox.frames.length]?).submissions =
        ledger.submissions := by
    rw [same, List.getElem?_length]
    rfl
  cases deed with
  | submit message caller =>
    simp only [Core.after, follow]
    cases closed : core.closed with
    | true =>
      have same : (core.submit terms.signing terms.settings now message caller).2 = core := by
        simp [Core.submit, closed]
      rw [same]
      exact Or.inl (quiet _ rfl)
    | false =>
      rcases core.submit_admits_or terms.signing terms.settings now message caller with
        ⟨id, taken, deadline, frame, allocated, _, same⟩ | ⟨same, _⟩
      · rw [same]
        simp only [List.getElem?_concat_length]
        exact Or.inr ⟨⟨id, frame⟩, some caller, rfl,
          fun _ => ⟨message, caller, taken, rfl, closed, allocated⟩⟩
      · rw [same]
        exact Or.inl (quiet _ rfl)
  | notify message =>
    cases notified : core.notify terms.signing message with
    | ok next =>
      obtain ⟨frame, _, rfl⟩ := Core.notify_eq_ok notified
      simp only [Core.after, notified, follow, List.getElem?_concat_length]
      exact Or.inr ⟨⟨.none, frame⟩, none, rfl, fun proper => absurd rfl proper⟩
    | error cause =>
      simp only [Core.after, notified, follow]
      exact Or.inl (quiet _ rfl)
  | _ => exact Or.inl rfl

theorem moment_follow (ledger : Ledger κ) (core next : Core κ) (now : Instant) (deed : Deed κ) :
    (ledger.follow core next now deed).moment = ledger.moment := by
  have entered (caller : Option κ) (frame : Option QueuedFrame) :
      (ledger.enter caller frame).moment = ledger.moment := by cases frame <;> rfl
  cases deed with
  | submit message caller => exact entered _ _
  | notify message => exact entered _ _
  | _ => rfl

end Ledger

namespace Chronicle

variable [DecidableEq κ] (terms : Terms σ)

theorem moment_play (chronicle : Chronicle κ σ) (turns : List (Turn κ σ)) :
    (chronicle.play terms turns).ledger.moment = chronicle.ledger.moment + turns.length := by
  induction turns generalizing chronicle with
  | nil => rfl
  | cons next turns ih =>
    have first : (chronicle.turn terms next).ledger.moment = chronicle.ledger.moment + 1 :=
      congrArg (· + 1) (Ledger.moment_follow ..)
    change ((chronicle.turn terms next).play terms turns).ledger.moment = _
    rw [ih, first, List.length_cons]
    omega

theorem cursor_turn_of_takes {chronicle : Chronicle κ σ} {next : Turn κ σ} {id : RequestId}
    (takes : chronicle.course.core.Takes (chronicle.course.deed terms next) id) :
    (chronicle.turn terms next).course.core.registry.cursor = id.byte := by
  change (chronicle.course.turn terms next).core.registry.cursor = id.byte
  rw [(chronicle.course.turn_does terms next).1]
  exact Core.cursor_of_takes terms takes _ _

theorem cursor_turn {chronicle : Chronicle κ σ} {next : Turn κ σ}
    (none : ∀ id, ¬ chronicle.course.core.Takes (chronicle.course.deed terms next) id) :
    (chronicle.turn terms next).course.core.registry.cursor =
      chronicle.course.core.registry.cursor := by
  change (chronicle.course.turn terms next).core.registry.cursor = _
  rw [(chronicle.course.turn_does terms next).1]
  exact Core.cursor_after terms _ _ _ none

/-- The cursor has come from each submission to where it is, with the ids between in use since.
Between two submissions under one id all others were in use. -/
structure Rounds (start : Course κ σ) (turns : List (Turn κ σ)) (chronicle : Chronicle κ σ) :
    Prop where
  arcs : ∀ submission ∈ chronicle.ledger.submissions, submission.frame.id ≠ .none →
    start.Reaches terms turns submission.moment chronicle.ledger.moment submission.frame.id
      ⟨chronicle.course.core.registry.cursor⟩
  pairs : chronicle.ledger.submissions.Pairwise fun earlier later =>
    earlier.frame.id = later.frame.id → earlier.frame.id ≠ .none →
      start.Circles terms turns earlier.moment (later.moment + 1) earlier.frame.id

variable {terms} in
/-- A turn goes on around the circle, or stays where it is. -/
theorem Rounds.turn {start : Course κ σ} {turns : List (Turn κ σ)} {chronicle : Chronicle κ σ}
    (rounds : chronicle.Rounds terms start turns) (faithful : chronicle.Faithful)
    {next : Turn κ σ} (there : turns[chronicle.ledger.moment]? = some next)
    (here : chronicle.course = start.play terms (turns.take chronicle.ledger.moment)) :
    (chronicle.turn terms next).Rounds terms start turns := by
  have moment : (chronicle.turn terms next).ledger.moment = chronicle.ledger.moment + 1 :=
    congrArg (· + 1) (Ledger.moment_follow ..)
  have goesOn (submission : Submission κ) (member : submission ∈ chronicle.ledger.submissions)
      (named : submission.frame.id ≠ .none) {id : RequestId}
      (takes : chronicle.course.core.Takes (chronicle.course.deed terms next) id) :=
    (rounds.arcs submission member named).takes terms (faithful.past submission member) there
      here takes
  have arcs (submission : Submission κ) (member : submission ∈ chronicle.ledger.submissions)
      (named : submission.frame.id ≠ .none) :
      start.Reaches terms turns submission.moment (chronicle.ledger.moment + 1)
        submission.frame.id ⟨(chronicle.turn terms next).course.core.registry.cursor⟩ := by
    by_cases takes : ∃ id, chronicle.course.core.Takes (chronicle.course.deed terms next) id
    · obtain ⟨id, takes⟩ := takes
      rw [cursor_turn_of_takes terms takes]
      rcases goesOn submission member named takes with ⟨_, reaches⟩ | circle
      · exact reaches
      · exact Or.inl circle
    · rw [cursor_turn terms fun id taken => takes ⟨id, taken⟩]
      exact (rounds.arcs submission member named).later terms
  rcases Ledger.submissions_follow terms chronicle.ledger chronicle.course.core
      chronicle.course.now chronicle.course.time (chronicle.course.deed terms next) with
    same | ⟨frame, caller, grown, takes⟩
  · have submissions : (chronicle.turn terms next).ledger.submissions =
        chronicle.ledger.submissions := same
    constructor
    · rw [submissions, moment]
      exact arcs
    · rw [submissions]
      exact rounds.pairs
  · have submissions : (chronicle.turn terms next).ledger.submissions =
        chronicle.ledger.submissions ++ [⟨frame, caller, chronicle.ledger.moment⟩] := grown
    constructor
    · rw [submissions, moment]
      intro submission member named
      rcases List.mem_append.mp member with older | new
      · exact arcs submission older named
      · obtain rfl := List.mem_singleton.mp new
        rw [cursor_turn_of_takes terms (takes named)]
        exact Course.Reaches.self terms start turns _ _ frame.id
    · rw [submissions]
      refine List.pairwise_append.mpr ⟨rounds.pairs, List.pairwise_singleton _ _, ?_⟩
      intro earlier older later new same named
      rw [List.mem_singleton.mp new] at same ⊢
      change earlier.frame.id = frame.id at same
      rcases goesOn earlier older named (takes (same ▸ named)) with ⟨apart, _⟩ | circle
      · exact absurd same.symm apart
      · exact circle

theorem rounds_play (now : Instant) (time : Timestamp) (rest : σ) (turns : List (Turn κ σ))
    (count : Nat) :
    ((start terms now time rest).play terms (turns.take count)).Rounds terms
      (.start terms now time rest) turns := by
  refine Turn.take_induction turns count ?_ ?_
  · exact ⟨fun _ member => absurd member List.not_mem_nil, List.Pairwise.nil⟩
  · intro count next there rounds
    have moment : ((start terms now time rest).play terms (turns.take count)).ledger.moment =
        count := by
      have within := (List.getElem?_eq_some_iff.mp there).1
      rw [moment_play, List.length_take, Nat.min_eq_left (Nat.le_of_lt within)]
      exact Nat.zero_add count
    rw [play_concat]
    refine rounds.turn (faithful_play terms now time rest _) (by rw [moment]; exact there) ?_
    rw [course_play, moment]
    rfl

end Chronicle

end Tether.Session
