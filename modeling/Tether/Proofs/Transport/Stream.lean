import Tether.Proofs.Session.Memory

/-! A connection is two streams, whatever its ends do and in whatever order. What an end finds
follows from what both have done before. The peer finds what the client could send, and then its
close. The client finds what the peer has sent, then the peer's close, and then that the peer is
gone; its own close takes the place of all that it has not found yet. -/

namespace Tether.Transport

open Session (PeerAct)

/-- What either end does. -/
inductive Act where
  | send (frame : Bytes)
  /-- The client looks for what arrived. -/
  | receive
  | close (code : UInt16) (reason : String)
  | peer (act : PeerAct)
  deriving DecidableEq

inductive Event where
  | sent (frame : Bytes) (failure : Option TransportError)
  | received (found : Option Incoming)
  | closed (code : UInt16) (reason : String)
  | peerSent (frame : Bytes) (delivered : Bool)
  | peerRead (found : PeerRead)
  | peerClosed (code : UInt16) (reason : String)
  | peerLeft
  deriving DecidableEq

/-- All that was done to a connection, in order. -/
abbrev Transcript : Type := List Event

/-- What a peer does, as a transcript has it. -/
def Event.ofPeer (line : Duplex) : PeerAct → Event
  | .send frame => .peerSent frame (line.peerSend frame).1
  | .read => .peerRead line.peerRead.1
  | .close code reason => .peerClosed code reason
  | .leave => .peerLeft

/-- A connection together with its transcript. -/
structure Exchange where
  line : Duplex
  past : Transcript
  deriving DecidableEq

namespace Exchange

/-- An end does something. A peer that has left does nothing more. -/
def turn (exchange : Exchange) (act : Act) : Exchange :=
  let ⟨line, past⟩ := exchange
  match act with
  | .send frame =>
    let (failure, next) := line.send frame
    ⟨next, past ++ [.sent frame failure]⟩
  | .receive =>
    let (found, next) := line.receive
    ⟨next, past ++ [.received found]⟩
  | .close code reason => ⟨line.close code reason, past ++ [.closed code reason]⟩
  | .peer act =>
    if line.peerGone then exchange else ⟨act.effect line, past ++ [.ofPeer line act]⟩

def play (acts : List Act) : Exchange := acts.foldl turn ⟨.fresh, []⟩

end Exchange

/-- What a transcript comes to. -/
structure Account where
  /-- What the client sent without a failure. -/
  accepted : List Bytes
  /-- The first close by the client. -/
  firstClose : Option CloseFrame
  /-- What the peer has read. -/
  read : List ClientFrame
  /-- What the peer sent. -/
  said : List Bytes
  /-- The close by the peer. -/
  farewell : Option CloseFrame
  /-- Whether the peer is gone. -/
  left : Bool
  /-- What the client has found. -/
  heard : List Incoming

namespace Account

def empty : Account := ⟨[], none, [], [], none, false, []⟩

def add (account : Account) : Event → Account
  | .sent frame none => { account with accepted := account.accepted ++ [frame] }
  | .sent _ (some _) => account
  | .received found => { account with heard := account.heard ++ found.toList }
  | .closed code reason =>
    { account with firstClose := account.firstClose.or (some (.closed code reason)) }
  | .peerSent frame _ => { account with said := account.said ++ [frame] }
  | .peerRead (.frame frame) => { account with read := account.read ++ [frame] }
  | .peerRead _ => account
  | .peerClosed code reason =>
    { account with farewell := some (.closed code reason), left := true }
  | .peerLeft => { account with left := true }

def of (past : Transcript) : Account := past.foldl add empty

theorem of_concat (past : Transcript) (event : Event) :
    of (past ++ [event]) = (of past).add event := by
  rw [of, List.foldl_append]
  rfl

variable (account : Account)

/-- What there is for the peer to read: what the client sent without a failure, and its first close
after that. -/
def outgoing : List ClientFrame :=
  account.accepted.map .message ++
    account.firstClose.toList.map fun frame => .close frame.code frame.reason

/-- What there is for the client to find: what the peer sent, and its close after that. -/
def incoming : List Incoming :=
  account.said.map .message ++ account.farewell.toList.map .closed

/-- What a client finds of a peer that is gone. -/
def loss : Incoming := .closed ⟨1006, "peer dropped", false⟩

/-- Why the client can send no more. -/
def refusal : Option TransportError :=
  if account.firstClose.isSome then some (.connectionClosed "closed locally")
  else if account.left then some (.connectionClosed "peer dropped")
  else none

/-- What the peer finds if it looks: what comes after all that it has read. -/
def nextRead : PeerRead :=
  match account.outgoing[account.read.length]? with
  | some frame => .frame frame
  | none => .pending

/-- What the client finds if it looks: its own close, if there was one, and else what comes after
all that it has found. -/
def nextHeard : Option Incoming :=
  match account.firstClose with
  | some frame => some (.closed frame)
  | none =>
    match account.incoming[account.heard.length]? with
    | some found => some found
    | none => if account.left then some loss else none

/-- The client has found the end of the connection. -/
def Ended : Prop := ∃ frame, .closed frame ∈ account.heard

/-- What can happen next, with the answers that are called for. A client that has found the end finds
nothing else any more. -/
def Calls : Event → Prop
  | .sent _ failure => failure = account.refusal
  | .received found =>
    found = account.nextHeard ∧ (account.Ended → ∃ frame, found = some (.closed frame))
  | .closed _ _ => True
  | .peerSent _ delivered => account.left = false ∧ delivered = true
  | .peerRead found => account.left = false ∧ found = account.nextRead
  | .peerClosed _ _ | .peerLeft => account.left = false

theorem pairwise_incoming :
    account.incoming.Pairwise fun earlier _ => ∀ frame, earlier ≠ .closed frame := by
  rw [incoming, List.pairwise_append]
  refine ⟨?_, ?_, ?_⟩
  · exact List.pairwise_map.mpr (List.pairwise_of_forall fun _ _ _ => Incoming.noConfusion)
  · cases account.farewell with
    | none => exact .nil
    | some frame => exact List.pairwise_singleton _ _
  · intro earlier said _ _
    obtain ⟨_, _, rfl⟩ := List.mem_map.mp said
    exact fun _ => Incoming.noConfusion

theorem farewell_of_mem {frame : CloseFrame} (member : .closed frame ∈ account.incoming) :
    account.farewell = some frame := by
  rcases List.mem_append.mp member with said | closed
  · obtain ⟨_, _, clash⟩ := List.mem_map.mp said
    cases clash
  · simpa using closed

end Account

/-- A connection holds what is still on the way. -/
structure Duplex.Follows (line : Duplex) (account : Account) : Prop where
  closed : line.localClose = account.firstClose
  gone : line.peerGone = account.left
  listens : line.clientGone = false
  present : account.left = false → account.farewell = none
  read : account.read <+: account.outgoing
  toPeer : account.left = false → account.read ++ line.toPeer = account.outgoing
  /-- A client that has found everything finds that the peer is gone as often as it looks. -/
  toClient : account.firstClose = none → ∃ losses,
    account.heard ++ line.toClient = account.incoming ++ List.replicate losses Account.loss ∧
      (losses = 0 ∨ account.left = true ∧ line.toClient = [])

namespace Duplex.Follows

variable {line : Duplex} {account : Account} (follows : line.Follows account)

include follows

theorem send_eq (frame : Bytes) : (line.send frame).1 = account.refusal := by
  unfold Duplex.send Account.refusal
  rw [follows.closed, follows.gone]
  split
  · rfl
  · split <;> rfl

theorem receive_eq : line.receive.1 = account.nextHeard := by
  unfold Duplex.receive Account.nextHeard
  rw [follows.closed]
  cases closed : account.firstClose with
  | some frame => rfl
  | none =>
    obtain ⟨losses, same, none | ⟨left, nothing⟩⟩ := follows.toClient closed
    · rw [none, List.replicate_zero, List.append_nil] at same
      rw [← same, List.getElem?_append_right (Nat.le_refl _), Nat.sub_self, follows.gone]
      cases line.toClient with
      | nil => rfl
      | cons found rest => rfl
    · rw [nothing, List.append_nil] at same
      rw [nothing, same, List.getElem?_eq_none (by simp), follows.gone]
      rfl

/-- A client that has found the end finds an end again. -/
theorem receive_of_ended (ended : account.Ended) :
    ∃ frame, line.receive.1 = some (.closed frame) := by
  obtain ⟨last, found⟩ := ended
  unfold Duplex.receive
  cases closed : line.localClose with
  | some frame => exact ⟨frame, rfl⟩
  | none =>
    obtain ⟨losses, same, ends⟩ := follows.toClient (follows.closed.symm.trans closed)
    cases arrived : line.toClient with
    | cons next rest =>
      rcases ends with none | ⟨_, nothing⟩
      · have ordered := account.pairwise_incoming
        rw [none, List.replicate_zero, List.append_nil] at same
        rw [← same, arrived, List.pairwise_append] at ordered
        exact absurd rfl (ordered.2.2 _ found next (List.mem_cons_self ..) last)
      · cases arrived.symm.trans nothing
    | nil =>
      have left : account.left = true := by
        rcases ends with none | ⟨left, _⟩
        · rw [none, arrived, List.replicate_zero, List.append_nil, List.append_nil] at same
          have farewell := account.farewell_of_mem (same ▸ found)
          cases left : account.left with
          | true => rfl
          | false => cases farewell.symm.trans (follows.present left)
        · exact left
      rw [follows.gone, left]
      exact ⟨_, rfl⟩

theorem peerRead_eq (there : account.left = false) : line.peerRead.1 = account.nextRead := by
  unfold Duplex.peerRead Account.nextRead
  rw [← follows.toPeer there, List.getElem?_append_right (Nat.le_refl _), Nat.sub_self]
  cases line.toPeer with
  | nil => simp [follows.listens]
  | cons frame rest => rfl

theorem send (frame : Bytes) :
    (line.send frame).2.Follows (account.add (.sent frame (line.send frame).1)) := by
  unfold Duplex.send
  split
  · exact follows
  · rename_i going
    split
    · exact follows
    · rw [follows.closed, Option.not_isSome_iff_eq_none] at going
      have more : (account.add (.sent frame none)).outgoing =
          account.outgoing ++ [.message frame] := by
        simp [Account.outgoing, Account.add, going]
      refine { follows with read := ?_, toPeer := fun there => ?_ }
      · rw [more]
        exact follows.read.trans (List.prefix_append _ _)
      · rw [more, ← follows.toPeer there, List.append_assoc]
        rfl

theorem receive : line.receive.2.Follows (account.add (.received line.receive.1)) := by
  unfold Duplex.receive
  cases closed : line.localClose with
  | some frame =>
    refine { follows with toClient := fun going => ?_ }
    cases closed.symm.trans (follows.closed.trans going)
  | none =>
    cases arrived : line.toClient with
    | cons found rest =>
      refine { follows with
        closed := closed.symm.trans follows.closed, toClient := fun going => ?_ }
      obtain ⟨losses, same, none | ⟨_, nothing⟩⟩ := follows.toClient going
      · rw [arrived, List.append_cons] at same
        exact ⟨losses, same, Or.inl none⟩
      · cases arrived.symm.trans nothing
    | nil =>
      refine { follows with toClient := fun going => ?_ }
      obtain ⟨losses, same, ends⟩ := follows.toClient going
      rw [arrived, List.append_nil] at same
      rw [arrived, List.append_nil, follows.gone]
      -- All was found before, so this is one more loss or nothing.
      cases left : account.left with
      | false =>
        refine ⟨losses, ?_, ends.imp_right fun ends => ?_⟩
        · simpa [Account.add] using same
        · cases left.symm.trans ends.1
      | true =>
        refine ⟨losses + 1, ?_, Or.inr ⟨left, rfl⟩⟩
        rw [List.replicate_succ', ← List.append_assoc]
        exact congrArg (· ++ [Account.loss]) same

theorem close (code : UInt16) (reason : String) :
    (line.close code reason).Follows (account.add (.closed code reason)) := by
  unfold Duplex.close
  split
  · rename_i closed
    obtain ⟨frame, known⟩ := Option.isSome_iff_exists.mp (follows.closed ▸ closed)
    have same : account.firstClose.or (some (.closed code reason)) = account.firstClose := by
      rw [known, Option.some_or]
    rw [Account.add, same]
    exact follows
  · rename_i going
    rw [follows.closed, Option.not_isSome_iff_eq_none] at going
    have more : (account.add (.closed code reason)).outgoing =
        account.outgoing ++ [.close code reason] := by
      simp [Account.outgoing, Account.add, going, CloseFrame.closed]
    refine { follows with
      closed := ?_, read := ?_, toPeer := fun there => ?_, toClient := fun still => ?_ }
    · simp [Account.add, going]
    · rw [more]
      exact follows.read.trans (List.prefix_append _ _)
    · rw [more, ← follows.toPeer there, List.append_assoc, follows.gone.trans there]
      rfl
    · -- What waits for a client that has closed the connection is not found any more.
      simp [Account.add, going] at still

/-- While the peer is there, what waits for the client is what it has not found yet. -/
theorem waiting (there : account.left = false) (going : account.firstClose = none) :
    account.heard ++ line.toClient = account.incoming := by
  obtain ⟨losses, same, none | ⟨left, _⟩⟩ := follows.toClient going
  · rwa [none, List.replicate_zero, List.append_nil] at same
  · cases there.symm.trans left

/-- The client finds what the peer adds after everything else. -/
theorem speak (there : account.left = false) {next : Duplex} {after : Account} {found : Incoming}
    (heard : after.heard = account.heard) (closed : after.firstClose = account.firstClose)
    (arrives : next.toClient = line.toClient ++ [found])
    (more : after.incoming = account.incoming ++ [found]) (going : after.firstClose = none) :
    ∃ losses, after.heard ++ next.toClient =
        after.incoming ++ List.replicate losses Account.loss ∧
      (losses = 0 ∨ after.left = true ∧ next.toClient = []) := by
  refine ⟨0, ?_, Or.inl rfl⟩
  rw [heard, arrives, more, ← follows.waiting there (closed.symm.trans going),
    List.replicate_zero, List.append_nil, List.append_assoc]

theorem peerSend (there : account.left = false) (frame : Bytes) :
    (line.peerSend frame).1 = true ∧
      (line.peerSend frame).2.Follows (account.add (.peerSent frame (line.peerSend frame).1)) := by
  have more : (account.add (.peerSent frame true)).incoming =
      account.incoming ++ [.message frame] := by
    simp [Account.incoming, Account.add, follows.present there]
  have arrives : line.peerSend frame =
      (true, { line with toClient := line.toClient ++ [.message frame] }) := by
    rw [Duplex.peerSend, follows.listens]
    rfl
  rw [arrives]
  exact ⟨rfl, { follows with toClient := follows.speak there rfl rfl rfl more }⟩

theorem peerRead (there : account.left = false) :
    line.peerRead.2.Follows (account.add (.peerRead line.peerRead.1)) := by
  unfold Duplex.peerRead
  cases waiting : line.toPeer with
  | nil =>
    rw [follows.listens]
    exact follows
  | cons frame rest =>
    have whole := follows.toPeer there
    rw [waiting, List.append_cons] at whole
    exact { follows with read := ⟨rest, whole⟩, toPeer := fun _ => whole }

theorem peerClose (there : account.left = false) (code : UInt16) (reason : String) :
    (line.peerClose code reason).Follows (account.add (.peerClosed code reason)) := by
  have more : (account.add (.peerClosed code reason)).incoming =
      account.incoming ++ [.closed (.closed code reason)] := by
    simp [Account.incoming, Account.add, follows.present there]
  have leaves : line.peerClose code reason = { line.dropPeer with
      toClient := line.toClient ++ [.closed (.closed code reason)] } := by
    rw [Duplex.peerClose, Duplex.dropPeer, follows.listens]
    rfl
  rw [leaves]
  exact { follows with
    gone := rfl
    present := fun still => by cases still
    toPeer := fun still => by cases still
    toClient := follows.speak there rfl rfl rfl more }

theorem dropPeer (there : account.left = false) :
    line.dropPeer.Follows (account.add .peerLeft) := by
  refine { follows with
    gone := rfl
    present := fun still => by cases still
    toPeer := fun still => by cases still
    toClient := fun going => ?_ }
  refine ⟨0, ?_, Or.inl rfl⟩
  rw [List.replicate_zero, List.append_nil]
  exact follows.waiting there going

/-- A peer that is still there gets the answers that are called for. -/
theorem peer (there : account.left = false) (act : PeerAct) :
    account.Calls (.ofPeer line act) ∧
      (act.effect line).Follows (account.add (.ofPeer line act)) := by
  cases act with
  | send frame =>
    obtain ⟨delivered, sent⟩ := follows.peerSend there frame
    exact ⟨⟨there, delivered⟩, sent⟩
  | close code reason => exact ⟨there, follows.peerClose there code reason⟩
  | read => exact ⟨⟨there, follows.peerRead_eq there⟩, follows.peerRead there⟩
  | leave => exact ⟨there, follows.dropPeer there⟩

end Duplex.Follows

namespace Transcript

/-- Each event is what the events before it call for. -/
def Faithful (past : Transcript) : Prop :=
  ∀ (prior : Transcript) event rest, past = prior ++ event :: rest → (Account.of prior).Calls event

theorem Faithful.concat {past : Transcript} (faithful : past.Faithful) {event : Event}
    (called : (Account.of past).Calls event) : Faithful (past ++ [event]) := by
  intro prior next rest same
  rcases rest.eq_nil_or_concat with rfl | ⟨rest, last, rfl⟩
  · obtain ⟨rfl, rfl⟩ := List.append_singleton_inj.mp same
    exact called
  · rw [List.concat_eq_append, ← List.cons_append, ← List.append_assoc] at same
    obtain ⟨rfl, _⟩ := List.append_singleton_inj.mp same
    exact faithful prior next rest rfl

end Transcript

namespace Exchange

/-- The events so far are as they should be, and so will the next be. -/
structure Sound (exchange : Exchange) : Prop where
  faithful : exchange.past.Faithful
  follows : exchange.line.Follows (.of exchange.past)

theorem Sound.next {exchange : Exchange} (sound : exchange.Sound) {line : Duplex} {event : Event}
    (called : (Account.of exchange.past).Calls event)
    (follows : line.Follows ((Account.of exchange.past).add event)) :
    Sound ⟨line, exchange.past ++ [event]⟩ :=
  ⟨sound.faithful.concat called, Account.of_concat exchange.past event ▸ follows⟩

theorem Sound.turn {exchange : Exchange} (sound : exchange.Sound) (act : Act) :
    (exchange.turn act).Sound := by
  have follows := sound.follows
  cases act with
  | send frame => exact sound.next (follows.send_eq frame) (follows.send frame)
  | receive => exact sound.next ⟨follows.receive_eq, follows.receive_of_ended⟩ follows.receive
  | close code reason => exact sound.next trivial (follows.close code reason)
  | peer act =>
    by_cases gone : exchange.line.peerGone = true
    · rw [Exchange.turn, if_pos gone]
      exact sound
    · have there := follows.gone.symm.trans (Bool.not_eq_true _ ▸ gone)
      obtain ⟨called, next⟩ := follows.peer there act
      rw [Exchange.turn, if_neg gone]
      exact sound.next called next

theorem Sound.foldl {exchange : Exchange} (sound : exchange.Sound) (acts : List Act) :
    (acts.foldl Exchange.turn exchange).Sound := by
  induction acts generalizing exchange with
  | nil => exact sound
  | cons act acts ih => exact ih (sound.turn act)

theorem sound_fresh : Sound ⟨.fresh, []⟩ where
  faithful := by
    intro prior event rest same
    cases prior <;> cases same
  follows := {
    closed := rfl
    gone := rfl
    listens := rfl
    present := fun _ => rfl
    read := List.prefix_refl []
    toPeer := fun _ => rfl
    toClient := fun _ => ⟨0, rfl, Or.inl rfl⟩ }

/-- Both ends of a new connection do what they like, in any order. What the peer reads is what the
client sent without a failure, in order, and then its first close. What the client finds before it
closes the connection is what the peer sent, in order, then the close by the peer, and then that the
peer is gone. And every answer either end gets on the way is the one that the events before it call
for. -/
theorem play_faithful (acts : List Act) :
    let account := Account.of (play acts).past
    account.read <+: account.outgoing ∧
    (account.firstClose = none → ∃ losses,
      account.heard <+: account.incoming ++ List.replicate losses Account.loss) ∧
    (play acts).past.Faithful := by
  have ⟨faithful, follows⟩ := sound_fresh.foldl acts
  refine ⟨follows.read, fun going => ?_, faithful⟩
  obtain ⟨losses, same, _⟩ := follows.toClient going
  exact ⟨losses, _, same⟩

/-- A message each way, a close by the peer, and a close by the client after it. -/
example :
    (play [.send [1], .peer .read, .peer (.send [2]), .peer (.close 1000 "bye"), .send [3],
      .receive, .receive, .receive, .close 1001 "done", .receive]).past =
    [.sent [1] none, .peerRead (.frame (.message [1])), .peerSent [2] true,
      .peerClosed 1000 "bye", .sent [3] (some (.connectionClosed "peer dropped")),
      .received (some (.message [2])), .received (some (.closed ⟨1000, "bye", true⟩)),
      .received (some Account.loss), .closed 1001 "done",
      .received (some (.closed ⟨1001, "done", true⟩))] := rfl

end Exchange

end Tether.Transport
