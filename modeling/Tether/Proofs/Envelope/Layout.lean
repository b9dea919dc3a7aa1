import Tether.Proofs.Envelope

namespace Tether.Envelope

open Crypto (KeyPair PublicKey SignatureScheme)
open Message (Vocabulary ClientMessage ServerMessage)

variable {M : Type} [Vocabulary M] {scheme : SignatureScheme}

/-- The frames of an envelope. A signature must be right for the frame that it stands in. -/
inductive Frames (scheme : SignatureScheme) : Envelope M → Bytes → Prop where
  | plain (id : RequestId) (message : M)
      (unsigned : Vocabulary.isSigned M (Vocabulary.tag message) = false) :
      Frames scheme ⟨Vocabulary.tag message, id, none, message⟩
        (header (Vocabulary.tag message) id ++ Vocabulary.payload message)
  | signed (id : RequestId) (message : M) (signer : PublicKey)
      (signature : FixedBytes Crypto.signatureSize)
      (signed : Vocabulary.isSigned M (Vocabulary.tag message) = true)
      (accepted : scheme.isKey signer.bytes = true)
      (verified : signer.verify scheme
        (signedPart (Vocabulary.tag message) id (Vocabulary.payload message)) signature.val = true) :
      Frames scheme ⟨Vocabulary.tag message, id, some signer, message⟩
        (header (Vocabulary.tag message) id ++
          (signer.bytes.val ++ signature.val ++ Vocabulary.payload message))

theorem ofBytes_eq_ok_iff {bytes : Bytes} {key : PublicKey} :
    PublicKey.ofBytes scheme bytes = .ok key ↔
      key.bytes.val = bytes ∧ scheme.isKey key.bytes = true := by
  rw [PublicKey.ofBytes]
  constructor
  · intro ok
    split at ok
    · split at ok
      · rename_i accepted
        cases ok
        exact ⟨rfl, accepted⟩
      · cases ok
    · cases ok
  · rintro ⟨rfl, accepted⟩
    rw [dif_pos key.bytes.property, if_pos accepted]

theorem mapError_eq_ok_iff {ε ε' α : Type} {result : Except ε α} {wrap : ε → ε'} {value : α} :
    result.mapError wrap = .ok value ↔ result = .ok value := by
  cases result <;> simp [Except.mapError]

theorem authenticate_eq_ok_iff {tag : UInt16} {id : RequestId} {bytes payload : Bytes}
    {signer : PublicKey} : authenticate scheme tag id bytes = .ok (signer, payload) ↔
      ∃ signature : FixedBytes Crypto.signatureSize,
        bytes = signer.bytes.val ++ signature.val ++ payload ∧ scheme.isKey signer.bytes = true ∧
          signer.verify scheme (signedPart tag id payload) signature.val = true := by
  simp only [authenticate, bind_eq_ok_iff, Prod.exists, next_eq_ok_iff, Wire.Reader.run_bytes_eq_ok,
    mapError_eq_ok_iff, ofBytes_eq_ok_iff]
  constructor
  · rintro ⟨key, _, rfl, signature, left, rfl, signer', ⟨same, accepted⟩, checked⟩
    split at checked
    · rename_i verified
      cases checked
      exact ⟨signature, by rw [same, List.append_assoc], accepted, verified⟩
    · cases checked
  · rintro ⟨signature, rfl, accepted, verified⟩
    refine ⟨signer.bytes, _, List.append_assoc .., signature, payload, rfl, signer, ⟨rfl, accepted⟩, ?_⟩
    rw [if_pos verified]

theorem decode_header_append {tag : UInt16} {entry : Message.Entry M}
    (found : Vocabulary.lookup M tag = some entry) (id : RequestId) (rest : Bytes) :
    decode scheme M (header tag id ++ rest) =
      if entry.authenticated then do
        let (signer, payload) ← authenticate scheme tag id rest
        let message ← (entry.payload.runAll payload).mapError .malformed
        return ⟨tag, id, some signer, message⟩
      else do
        let message ← (entry.payload.runAll rest).mapError .malformed
        return ⟨tag, id, none, message⟩ := by
  obtain ⟨tagged, named⟩ := read_header_iff.mpr ⟨rfl, rfl⟩
  rw [decode, tagged]
  simp only [bind, Except.bind, found, named]

variable {fits : M → Prop}

/-- The decoder finds an envelope in the frames of it, if they can be written at all, and nowhere
else. -/
theorem decode_eq_ok_iff (lawful : Vocabulary.Lawful M fits) {bytes : Bytes}
    {envelope : Envelope M} : decode scheme M bytes = .ok envelope ↔
      fits envelope.message ∧ Frames scheme envelope bytes := by
  constructor
  · intro decoded
    obtain ⟨rest, entry, rfl, found⟩ := header_of_decode decoded
    have signing := Vocabulary.isSigned_of_lookup found
    obtain ⟨tag, id, signer, message⟩ := envelope
    rw [decode_header_append found] at decoded
    split at decoded
    · rename_i authenticated
      obtain ⟨⟨key, payload⟩, checked, after⟩ := bind_eq_ok_iff.mp decoded
      obtain ⟨known, read, built⟩ := bind_eq_ok_iff.mp after
      obtain ⟨signature, rfl, accepted, verified⟩ := authenticate_eq_ok_iff.mp checked
      obtain ⟨rfl, fit, rfl⟩ := (lawful.exact found).mp (mapError_eq_ok_iff.mp read)
      cases built
      exact ⟨fit, .signed id message key signature (signing.trans authenticated) accepted verified⟩
    · rename_i unauthenticated
      obtain ⟨known, read, built⟩ := bind_eq_ok_iff.mp decoded
      obtain ⟨rfl, fit, rfl⟩ := (lawful.exact found).mp (mapError_eq_ok_iff.mp read)
      cases built
      exact ⟨fit, .plain id message (signing.trans (Bool.eq_false_of_not_eq_true unauthenticated))⟩
  · rintro ⟨fit, frames⟩
    cases frames with
    | plain id message unsigned =>
      obtain ⟨entry, found, signing⟩ := lawful.row message
      have read := (lawful.exact found).mpr ⟨rfl, fit, rfl⟩
      rw [decode_header_append found, signing, unsigned, read]
      rfl
    | signed id message signer signature signed accepted verified =>
      obtain ⟨entry, found, signing⟩ := lawful.row message
      have read := (lawful.exact found).mpr ⟨rfl, fit, rfl⟩
      have checked := authenticate_eq_ok_iff.mpr ⟨signature, rfl, accepted, verified⟩
      rw [decode_header_append found, signing, signed, checked]
      simp only [bind, Except.bind, read]
      rfl

/-- An unsigned message has one frame under each id, whatever keys are at hand. -/
theorem encode_plain (lawful : Vocabulary.Lawful M fits) {message : M}
    (unsigned : Vocabulary.isSigned M (Vocabulary.tag message) = false) (id : RequestId)
    (keys : Option KeyPair) : encode scheme message id keys =
      .ok (header (Vocabulary.tag message) id ++ Vocabulary.payload message) := by
  obtain ⟨entry, found, signing⟩ := lawful.row message
  simp only [encode, found, signing, unsigned]
  rfl

theorem encode_signed (lawful : Vocabulary.Lawful M fits) {message : M}
    (signed : Vocabulary.isSigned M (Vocabulary.tag message) = true) (id : RequestId)
    (pair : KeyPair) : encode scheme message id (some pair) =
      .ok (header (Vocabulary.tag message) id ++ (pair.publicKey.bytes.val ++
        (pair.sign scheme
          (signedPart (Vocabulary.tag message) id (Vocabulary.payload message))).val ++
        Vocabulary.payload message)) := by
  obtain ⟨entry, found, signing⟩ := lawful.row message
  simp only [encode, found, signing, signed, if_true, List.append_assoc]

theorem encode_without_keys (lawful : Vocabulary.Lawful M fits) {message : M}
    (signed : Vocabulary.isSigned M (Vocabulary.tag message) = true) (id : RequestId) :
    encode scheme message id none = .error (.missingKeys (Vocabulary.tag message)) := by
  obtain ⟨entry, found, signing⟩ := lawful.row message
  simp only [encode, found, signing, signed, if_true]

end Tether.Envelope
