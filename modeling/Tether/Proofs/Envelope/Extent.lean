import Tether.Proofs.Envelope.Layout

namespace Tether.Envelope

open Crypto (SignatureScheme)
open Message (Vocabulary ClientMessage ServerMessage)
open Wire (Reader)

variable {M : Type} [Vocabulary M] {scheme : SignatureScheme}

/-- The reader of a whole unsigned frame with such a payload. -/
def plainReader (payload : Reader M) : Reader (Envelope M) := do
  let tag ← Wire.Codec.u16.read
  let id ← RequestId.codec.read
  let message ← payload
  return ⟨tag, id, none, message⟩

theorem runAll_bind_eq_next {α β : Type} (reader : Reader α) (rest : α → Reader β) (bytes : Bytes) :
    ((reader.bind rest).runAll bytes).mapError .malformed =
      next reader bytes >>= fun read => ((rest read.1).runAll read.2).mapError .malformed := by
  rw [Reader.runAll, Reader.run_bind, next]
  rcases reader.run bytes with ⟨cause | value, left⟩
  · rfl
  · rfl

theorem tagOf?_append {bytes : Bytes} {tag : UInt16} (tagged : tagOf? bytes = some tag)
    (more : Bytes) : tagOf? (bytes ++ more) = some tag := by
  match bytes with
  | [] => cases tagged
  | [_] => cases tagged
  | _ :: _ :: _ => exact tagged

/-- Bytes with a known unsigned tag, or too few for any tag, are decoded by the reader of its row. -/
theorem decode_eq_plainReader {tag : UInt16} {entry : Message.Entry M}
    (found : Vocabulary.lookup M tag = some entry) (unsigned : entry.authenticated = false)
    {bytes : Bytes} (tagged : ∀ other, tagOf? bytes = some other → other = tag) :
    decode scheme M bytes = ((plainReader entry.payload).runAll bytes).mapError .malformed := by
  rw [plainReader, Reader.bind_eq, runAll_bind_eq_next, decode]
  cases first : next Wire.Codec.u16.read bytes with
  | error cause => rfl
  | ok read =>
    obtain ⟨other, afterTag⟩ := read
    obtain ⟨-, rfl⟩ := (Wire.Codec.total_u16 _ _ _).mp (next_eq_ok_iff.mp first)
    obtain rfl := tagged other (tagOf?_write_append ..)
    simp only [bind, Except.bind, found]
    rw [runAll_bind_eq_next]
    cases next RequestId.codec.read afterTag with
    | error cause => rfl
    | ok read =>
      simp only [bind, Except.bind, unsigned, Bool.false_eq_true, if_false, Reader.pure_eq,
        Reader.runAll_bind_done]
      cases entry.payload.runAll read.2 <;> rfl

/-- The bytes are refused as structurally wrong, in these words. -/
def BadData (scheme : SignatureScheme) (M : Type) [Vocabulary M] (bytes : Bytes) (words : String) :
    Prop :=
  ∃ error, decode scheme M bytes = .error error ∧ error.name = "BadData" ∧
    error.message = "bad data: " ++ words

/-- Every beginning of the frame, the empty one included, is refused as cut short, and any bytes
behind it are refused as so many too many. -/
structure Delimited (scheme : SignatureScheme) (M : Type) [Vocabulary M] (frame : Bytes) : Prop where
  front : ∀ front, front <+: frame → front ≠ frame →
    ∃ what, BadData scheme M front ("truncated frame while reading " ++ what)
  more : ∀ more, more ≠ [] →
    BadData scheme M (frame ++ more) (toString more.length ++ " trailing bytes after payload")

theorem BadData.of_malformed {bytes : Bytes} (cause : Wire.Malformed)
    (refused : decode scheme M bytes = .error (.malformed cause)) :
    BadData scheme M bytes cause.message :=
  ⟨_, refused, rfl, rfl⟩

/-- A frame that is accepted without a signer is read by one reader, which needs all of it. -/
theorem plainReader_of_decode {fits : M → Prop} (lawful : Vocabulary.Lawful M fits) {frame : Bytes}
    {envelope : Envelope M} (decoded : decode scheme M frame = .ok envelope)
    (unsigned : envelope.signer = none) :
    ∃ entry, Vocabulary.lookup M envelope.tag = some entry ∧ entry.authenticated = false ∧
      (plainReader entry.payload).runAll frame = .ok envelope := by
  obtain ⟨rest, entry, front, found⟩ := header_of_decode decoded
  have plain : entry.authenticated = false := by
    rw [← Vocabulary.isSigned_of_lookup found]
    cases ((decode_eq_ok_iff lawful).mp decoded).2 with
    | plain id message plain => exact plain
    | signed => cases unsigned
  have tagged := (glance_of_decode decoded).2
  have same (other : UInt16) (seen : tagOf? frame = some other) : other = envelope.tag :=
    Option.some.inj (seen.symm.trans tagged)
  rw [decode_eq_plainReader found plain same] at decoded
  exact ⟨entry, found, plain, mapError_eq_ok_iff.mp decoded⟩

theorem delimited_of_decode {fits : M → Prop} (lawful : Vocabulary.Lawful M fits) {frame : Bytes}
    {envelope : Envelope M} (decoded : decode scheme M frame = .ok envelope)
    (unsigned : envelope.signer = none) : Delimited scheme M frame := by
  obtain ⟨entry, found, plain, read⟩ := plainReader_of_decode lawful decoded unsigned
  have tagged := (glance_of_decode decoded).2
  constructor
  · rintro front ⟨missing, rfl⟩ proper
    have cut : missing ≠ [] := by
      rintro rfl
      exact proper (List.append_nil front).symm
    have same (other : UInt16) (seen : tagOf? front = some other) : other = envelope.tag :=
      Option.some.inj ((tagOf?_append seen missing).symm.trans tagged)
    obtain ⟨what, refused⟩ := Reader.runAll_front read cut
    refine ⟨what, .of_malformed (.truncated what) ?_⟩
    rw [decode_eq_plainReader found plain same, refused]
    rfl
  · intro more extended
    have same (other : UInt16) (seen : tagOf? (frame ++ more) = some other) :
        other = envelope.tag :=
      Option.some.inj (seen.symm.trans (tagOf?_append tagged more))
    refine .of_malformed (.trailing more.length) ?_
    rw [decode_eq_plainReader found plain same, Reader.runAll_append read extended]
    rfl

/-- Of a client's messages only a ping travels unsigned. -/
theorem signer_eq_none_iff_ping {frame : Bytes} {envelope : Envelope ClientMessage}
    (decoded : decode scheme ClientMessage frame = .ok envelope) :
    envelope.signer = none ↔ envelope.message = .ping := by
  cases ((decode_eq_ok_iff ClientMessage.lawful).mp decoded).2 with
  | plain id message unsigned =>
    cases message with
    | ping => exact iff_of_true rfl rfl
    | decayQuery => cases unsigned
    | identity name => cases unsigned
  | signed id message signer signature signed =>
    cases message with
    | ping => cases signed
    | decayQuery => simp
    | identity name => simp

/-- A frame that is accepted unsigned, which is any frame of a server and a client's ping, is refused
as cut short if any bytes are missing at its end, and for the number of bytes behind it if there are
any. -/
theorem unsigned_frames_are_delimited (scheme : SignatureScheme) :
    (∀ (frame : Bytes) (envelope : Envelope ServerMessage),
      decode scheme ServerMessage frame = .ok envelope →
      envelope.signer = none ∧ Delimited scheme ServerMessage frame) ∧
    ∀ (frame : Bytes) (envelope : Envelope ClientMessage),
      decode scheme ClientMessage frame = .ok envelope →
      (envelope.signer = none ↔ envelope.message = .ping) ∧
      (envelope.signer = none → Delimited scheme ClientMessage frame) := by
  constructor
  · intro frame envelope decoded
    have unsigned : envelope.signer = none := by
      cases ((decode_eq_ok_iff ServerMessage.lawful).mp decoded).2 with
      | plain => rfl
      | signed id message signer signature signed =>
        rw [ServerMessage.isSigned_eq_false] at signed
        cases signed
    exact ⟨unsigned, delimited_of_decode ServerMessage.lawful decoded unsigned⟩
  · intro frame envelope decoded
    exact ⟨signer_eq_none_iff_ping decoded, delimited_of_decode ClientMessage.lawful decoded⟩

/-- A server's report of a fault, with a text of one character in two bytes and an empty context, and
a ping. -/
theorem unsigned_frames_are_delimited_report :
    let report : Bytes := [0, 3, 7, 2, 0, 0, 0, 2, 0xc3, 0xa9, 1, 0, 0, 0, 0, 9, 0, 2, 1]
    let ping : Bytes := [0, 0, 1]
    decode Crypto.ed25519 ServerMessage report =
        .ok ⟨3, ⟨7⟩, none, .fault ⟨.invalidData, "é", some "", ⟨9⟩, 2, true⟩⟩ ∧
      decode Crypto.ed25519 ClientMessage ping = .ok ⟨0, ⟨1⟩, none, .ping⟩ ∧
      Delimited Crypto.ed25519 ServerMessage report ∧
      Delimited Crypto.ed25519 ClientMessage ping := by
  intro report ping
  have reported : decode Crypto.ed25519 ServerMessage report =
      .ok ⟨3, ⟨7⟩, none, .fault ⟨.invalidData, "é", some "", ⟨9⟩, 2, true⟩⟩ := by decide +kernel
  have pinged : decode Crypto.ed25519 ClientMessage ping = .ok ⟨0, ⟨1⟩, none, .ping⟩ := by
    decide +kernel
  have delimited := unsigned_frames_are_delimited Crypto.ed25519
  exact ⟨reported, pinged, (delimited.1 report _ reported).2, (delimited.2 ping _ pinged).2 rfl⟩

end Tether.Envelope
