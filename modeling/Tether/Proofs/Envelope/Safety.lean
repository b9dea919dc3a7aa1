import Tether.Envelope
import Tether.Proofs.Message.Scans

/-! A frame is scanned part by part with one cursor, its payload by the scan in the row of its tag.
The scan of a frame never breaks off and comes to what decoding it comes to, whatever the bytes are.
So does every call on a cursor, in whatever order calls are made. -/

namespace Tether.Envelope

open Crypto (PublicKey SignatureScheme)
open Message (ClientMessage Row Scanned ServerMessage Vocabulary)
open Wire (Cursor Malformed Reader Scan)

variable (scheme : SignatureScheme)

/-- Scan the key and the signature of a frame, and check them against what is still unread. -/
def scanSigner (tag : UInt16) (id : RequestId) : Scan FrameError (Option PublicKey) := do
  let key ← (Scan.take Crypto.publicKeySize "public key").mapError .malformed
  let signature ← (Scan.take Crypto.signatureSize "signature").mapError .malformed
  match PublicKey.ofBytes scheme key with
  | .error cause => throw (.key cause)
  | .ok key =>
    if key.verify scheme (signedPart tag id (← Scan.unread)) signature then return some key
    else throw .badSignature

/-- Nothing may be left. -/
def scanEnd : Scan FrameError Unit := do
  let left ← Scan.unread
  if left ≠ [] then throw (.malformed (.trailing left.length))

def scanFrame (M : Type) [Vocabulary M] [Scanned M] : Scan FrameError (Envelope M) := do
  let tag ← Scan.u16.mapError .malformed
  match Scanned.row? M tag with
  | none => throw (.unknownTag tag)
  | some row =>
    let id ← RequestId.scan.mapError .malformed
    let signer ← (if row.entry.authenticated then scanSigner scheme tag id else pure none)
    let message ← row.scan.mapError .malformed
    scanEnd
    return ⟨tag, id, signer, message⟩

variable {scheme} {α β γ δ : Type} {cursor : Cursor}

/-- From a cursor a scan does what a step on the unread bytes does that has this outcome. The scan makes
something more of the value. -/
inductive Matches (into : γ → α) (scan : Scan FrameError α) (cursor : Cursor) :
    Except FrameError (γ × Bytes) → Prop where
  | ok (value : γ) (left : Bytes) (leads : scan.Leads cursor (.ok (into value)) left) :
      Matches into scan cursor (.ok (value, left))
  | error (cause : FrameError) (left : Bytes) (leads : scan.Leads cursor (.error cause) left) :
      Matches into scan cursor (.error cause)

theorem matches_next {scan : Scan Malformed α} {reader : Reader γ} {into : γ → α}
    (follows : scan.Follows (reader.bind fun value => .done (into value))) :
    Matches into (scan.mapError .malformed) cursor (next reader cursor.unread) := by
  have leads := (follows cursor).mapError FrameError.malformed
  rw [Reader.run_bind] at leads
  rw [next]
  rcases ran : reader.run cursor.unread with ⟨cause | value, left⟩
  · rw [ran] at leads
    exact .error _ left leads
  · rw [ran] at leads
    exact .ok value left leads

theorem matches_read {scan : Scan Malformed α} {reader : Reader α} (follows : scan.Follows reader) :
    Matches id (scan.mapError .malformed) cursor (next reader cursor.unread) := by
  have whole : scan.Follows (reader.bind fun value => .done (id value)) := by
    rw [← reader.bind_done] at follows
    exact follows
  exact matches_next whole

theorem matches_pure (value : γ) (into : γ → α) :
    Matches into (pure (into value)) cursor (.ok (value, cursor.unread)) :=
  .ok value cursor.unread (Scan.leads_pure (into value))

theorem matches_throw (cause : FrameError) (into : γ → α) :
    Matches into (throw cause) cursor (.error cause) :=
  .error cause cursor.unread (Scan.leads_throw cause)

theorem Matches.bind {into : γ → α} {scan : Scan FrameError α}
    {outcome : Except FrameError (γ × Bytes)} {more : δ → β} {rest : α → Scan FrameError β}
    {later : γ × Bytes → Except FrameError (δ × Bytes)} (first : Matches into scan cursor outcome)
    (onward : ∀ value left grasped,
      Matches more (rest (into value)) ⟨left, grasped⟩ (later (value, left))) :
    Matches more (scan >>= rest) cursor (outcome >>= later) := by
  cases first with
  | error cause left leads => exact .error cause left leads.bind_error
  | ok value left leads =>
    obtain ⟨grasped, further⟩ := leads.bind_ok
    have matched := onward value left grasped
    change Matches more (scan >>= rest) cursor (later (value, left))
    generalize later (value, left) = reached at matched
    cases matched with
    | error cause behind leads => exact .error cause behind (further leads)
    | ok last behind leads => exact .ok last behind (further leads)

theorem matches_take (count : Nat) (what : String) :
    Matches Subtype.val ((Scan.take count what).mapError .malformed) cursor
      (next (Reader.bytes count what) cursor.unread) :=
  matches_next (Scan.follows_bytes count what)

theorem Matches.of_unread {into : γ → α} {rest : Bytes → Scan FrameError α}
    {outcome : Except FrameError (γ × Bytes)}
    (matched : Matches into (rest cursor.unread) cursor outcome) :
    Matches into (Scan.unread >>= rest) cursor outcome := by
  cases matched with
  | error cause left leads => exact .error cause left (Scan.leads_unread_bind.mpr leads)
  | ok value left leads => exact .ok value left (Scan.leads_unread_bind.mpr leads)

theorem matches_scanSigner (tag : UInt16) (id : RequestId) :
    Matches some (scanSigner scheme tag id) cursor (authenticate scheme tag id cursor.unread) := by
  refine (matches_take Crypto.publicKeySize "public key").bind fun key left grasped => ?_
  refine (matches_take Crypto.signatureSize "signature").bind fun signature payload grasped => ?_
  cases PublicKey.ofBytes scheme key.val with
  | error cause => exact matches_throw (.key cause) some
  | ok key =>
    refine Matches.of_unread ?_
    change Matches some _ _ (if _ then _ else _)
    split
    · exact matches_pure key some
    · exact matches_throw .badSignature some

theorem leads_scanEnd_nil {grasped : List Wire.Grasp} :
    scanEnd.Leads ⟨[], grasped⟩ (.ok ()) [] :=
  Scan.leads_unread_bind.mpr (Scan.leads_pure ())

theorem leads_scanEnd_cons {byte : UInt8} {left : Bytes} {grasped : List Wire.Grasp} :
    scanEnd.Leads ⟨byte :: left, grasped⟩
      (.error (.malformed (.trailing (byte :: left).length))) (byte :: left) :=
  Scan.leads_unread_bind.mpr (Scan.leads_throw _)

/-- A payload is scanned to its end. -/
theorem matches_payload {scan : Scan Malformed α} {reader : Reader α} (follows : scan.Follows reader)
    (into : α → β) :
    Matches id (do
        let message ← scan.mapError .malformed
        scanEnd
        return into message) cursor
      ((fun last => (last, [])) <$> do
        let message ← (reader.runAll cursor.unread).mapError .malformed
        return into message) := by
  have leads := (follows cursor).mapError FrameError.malformed
  rw [Reader.runAll]
  rcases ran : reader.run cursor.unread with ⟨cause | value, left⟩
  · rw [ran] at leads
    exact .error _ left leads.bind_error
  · rw [ran] at leads
    obtain ⟨grasped, further⟩ := leads.bind_ok
    cases left with
    | nil =>
      obtain ⟨same, last⟩ := leads_scanEnd_nil.bind_ok
      exact .ok _ [] (further (last (Scan.leads_pure _)))
    | cons byte left => exact .error _ (byte :: left) (further leads_scanEnd_cons.bind_error)

theorem matches_scanFrame (scheme : SignatureScheme) (M : Type) [Vocabulary M] [Scanned M]
    (cursor : Cursor) :
    Matches id (scanFrame scheme M) cursor
      ((fun envelope => (envelope, [])) <$> decode scheme M cursor.unread) := by
  rw [decode, map_bind]
  refine (matches_read Scan.follows_u16).bind fun tag left grasped => ?_
  dsimp only [id]
  rw [Scanned.lookup_eq]
  cases Scanned.row? M tag with
  | none => exact matches_throw (.unknownTag tag) id
  | some row =>
    dsimp only [Option.map]
    rw [map_bind]
    refine (matches_read RequestId.follows_scan).bind fun id left grasped => ?_
    dsimp only
    cases row.entry.authenticated with
    | true =>
      simp only [if_true]
      rw [map_bind]
      refine (matches_scanSigner tag id).bind fun signer payload grasped => ?_
      exact matches_payload row.follows (Envelope.mk tag id (some signer))
    | false => exact matches_payload row.follows (Envelope.mk tag id none)

/-- The scan of a frame does not break off. It comes to what the frame decodes to, and has used up what
the single reads in it have got. -/
theorem scanFrame_eq_decode (scheme : SignatureScheme) (M : Type) [Vocabulary M] [Scanned M]
    (input : Bytes) :
    ∃ cursor, scanFrame scheme M ⟨input, []⟩ = .ok (decode scheme M input, cursor) ∧
      input = cursor.grasped.flatMap Wire.Grasp.used ++ cursor.unread := by
  have matched := matches_scanFrame scheme M ⟨input, []⟩
  have leads : ∃ left, (scanFrame scheme M).Leads ⟨input, []⟩ (decode scheme M input) left := by
    cases decoded : decode scheme M input with
    | error cause =>
      rw [decoded] at matched
      cases matched with
      | error _ left leads => exact ⟨left, leads⟩
    | ok envelope =>
      rw [decoded] at matched
      cases matched with
      | ok _ _ leads => exact ⟨[], leads⟩
  obtain ⟨left, grasped, ran, used⟩ := leads
  exact ⟨_, ran, used⟩

/-- Decoding is safe. Whatever the bytes are, and whatever is called for in whatever order, also after
failures, no call breaks off. Each call comes to what its reader comes to and leaves an end of the bytes
unread. It has used up just what the numbers that it got and the bytes that it took until then have in
them, and nothing if it is a take or the read of a number itself and failed. Nor does the scan of a
frame break off: it comes to what the frame decodes to, which is a message or an error. -/
theorem decoding_never_breaks_off (scheme : SignatureScheme) :
    (∀ (calls : List Message.Call) (input : Bytes), ∃ made,
      Message.Call.reports calls input = .ok made ∧ made.map Message.Report.call = calls ∧
        ∀ report ∈ made, report.Sound ∧ report.after <:+ input) ∧
    ∀ input : Bytes,
      (∃ cursor, scanFrame scheme ServerMessage ⟨input, []⟩ =
          .ok (decode scheme ServerMessage input, cursor) ∧
        input = cursor.grasped.flatMap Wire.Grasp.used ++ cursor.unread) ∧
      ∃ cursor, scanFrame scheme ClientMessage ⟨input, []⟩ =
          .ok (decode scheme ClientMessage input, cursor) ∧
        input = cursor.grasped.flatMap Wire.Grasp.used ++ cursor.unread :=
  ⟨Message.Call.sound_reports, fun input =>
    ⟨scanFrame_eq_decode scheme ServerMessage input,
      scanFrame_eq_decode scheme ClientMessage input⟩⟩

end Tether.Envelope
