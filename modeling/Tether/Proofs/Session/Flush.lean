import Tether.Proofs.Session.Gear

namespace Tether.Session.Outbox

open Transport (TransportError)

variable {σ : Type}

/-- Something that happens in a flush. -/
inductive Mark where
  /-- A frame was given to the connection, which took it or failed. -/
  | sent (bytes : Bytes) (failure : Option TransportError)
  | noted (frame : QueuedFrame)
  deriving DecidableEq, Repr

/-- The same connection with a record. -/
def recordSend (send : Bytes → σ → Option TransportError × σ) (bytes : Bytes)
    (world : σ × List Mark) : Option TransportError × (σ × List Mark) :=
  let (failure, next) := send bytes world.1
  (failure, next, world.2 ++ [.sent bytes failure])

/-- The same note with a record. -/
def recordNote (note : QueuedFrame → σ → σ) (frame : QueuedFrame) (world : σ × List Mark) :
    σ × List Mark :=
  (note frame world.1, world.2 ++ [.noted frame])

/-- A frame that is taken is sent, and then noted. -/
def takenMarks (frame : QueuedFrame) : List Mark := [.sent frame.bytes none, .noted frame]

/-- How a flush ends that wrote some frames, left others and put these marks on record: with nothing
left, or with a failure at the first frame that is left. -/
inductive Ends (written left : List QueuedFrame) (marks : List Mark) :
    Option TransportError → Prop where
  | through (empty : left = []) (record : marks = written.flatMap takenMarks) :
      Ends written left marks none
  | failing (failure : TransportError) (head : QueuedFrame) (rest : List QueuedFrame)
      (stays : left = head :: rest)
      (record : marks = written.flatMap takenMarks ++ [.sent head.bytes (some failure)]) :
      Ends written left marks (some failure)

variable {written left : List QueuedFrame} {marks : List Mark} {failure : Option TransportError}

theorem Ends.cons (ends : Ends written left marks failure) (frame : QueuedFrame) :
    Ends (frame :: written) left (takenMarks frame ++ marks) failure := by
  cases ends with
  | through empty record =>
    refine .through empty ?_
    rw [record, List.flatMap_cons]
  | failing failure head rest stays record =>
    refine .failing failure head rest stays ?_
    rw [record, List.flatMap_cons, List.append_assoc]

@[simp] theorem failure_not_mem_takenMarks (frame : QueuedFrame) (bytes : Bytes)
    (failure : TransportError) : .sent bytes (some failure) ∉ takenMarks frame := by
  simp [takenMarks]

/-- A flush reports just the failures of its connection. -/
theorem Ends.failure_iff (ends : Ends written left marks failure) (cause : TransportError) :
    failure = some cause ↔ ∃ bytes, .sent bytes (some cause) ∈ marks := by
  cases ends with
  | through empty record =>
    simp [record]
  | failing failure head rest stays record =>
    simp [record, eq_comm]

variable (send : Bytes → σ → Option TransportError × σ) (note : QueuedFrame → σ → σ)

theorem sendFrames_record (frames : List QueuedFrame) (world : σ) (record : List Mark) :
    let run := sendFrames (recordSend send) (recordNote note) frames (world, record)
    ∃ written marks, frames = written ++ run.2.1 ∧ run.1.written = written.length ∧
      run.2.2.2 = record ++ marks ∧ Ends written run.2.1 marks run.1.failure := by
  -- The record must be general: it has grown when the next frame is sent.
  induction frames generalizing world record with
  | nil => exact ⟨[], [], rfl, rfl, (List.append_nil record).symm, .through rfl rfl⟩
  | cons frame frames ih =>
    rcases sent : send frame.bytes world with ⟨_ | failure, next⟩
    · obtain ⟨written, marks, split, count, added, ends⟩ :=
        ih (note frame next) (record ++ [.sent frame.bytes none] ++ [.noted frame])
      simp only [sendFrames, recordSend, sent]
      refine ⟨frame :: written, takenMarks frame ++ marks, congrArg (frame :: ·) split,
        congrArg (· + 1) count, ?_, ends.cons frame⟩
      exact added.trans (by simp [takenMarks])
    · simp only [sendFrames, recordSend, sent]
      exact ⟨[], [.sent frame.bytes (some failure)], rfl, rfl, rfl,
        .failing failure frame frames rfl rfl⟩

/-- A flush takes frames from the front of the outbox, in order, and leaves the others as they are.
Each frame that it takes is sent once and then noted once, before the next one is sent. It goes on
until nothing is left or the connection fails; the frame at which it failed is then the first that
is left, and no failure goes unreported. Keeping a record of this changes nothing. Without a
connection nothing happens at all. -/
theorem flush_takes_each_frame_once (outbox : Outbox) (world : σ) :
    let run := outbox.flush (some (recordSend send)) (recordNote note) (world, [])
    let flushed := run.1
    let left := run.2.1
    let record := run.2.2.2
    outbox.flush (some send) note world = (flushed, left, run.2.2.1) ∧
      left.capacity = outbox.capacity ∧
      (∃ written, outbox.frames = written ++ left.frames ∧ flushed.written = written.length ∧
        Ends written left.frames record flushed.failure) ∧
      (∀ failure, flushed.failure = some failure ↔
        ∃ bytes, .sent bytes (some failure) ∈ record) ∧
      outbox.flush none note world = (⟨0, none⟩, outbox, world) := by
  obtain ⟨written, marks, split, count, record, ends⟩ :=
    sendFrames_record send note outbox.frames world []
  have same := sendFrames_lift Prod.fst (recordSend send) (recordNote note) send note
    (fun _ _ => rfl) (fun _ _ => rfl) outbox.frames (world, [])
  rw [List.nil_append] at record
  rw [← record] at ends
  exact ⟨by simp only [flush, same], rfl, ⟨written, split, count, ends⟩, ends.failure_iff, rfl⟩

end Tether.Session.Outbox
