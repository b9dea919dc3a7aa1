import Tether.Proofs.Envelope.RoundTrip

/-! A frame of a signed tag is decoded only if the key in it has signed its header and payload. Any
other frame of such a tag is refused for a reason that is settled before its payload is looked at,
and so is the same for every payload. -/

namespace Tether.Envelope

open Crypto (KeyPair PublicKey SignatureScheme)
open Message (Vocabulary ClientMessage)

variable {M : Type} [Vocabulary M] {scheme : SignatureScheme}

/-- Frames that differ in tag, id or payload have different bytes to be signed. -/
theorem signedPart_inj {tag tag' : UInt16} {id id' : RequestId} {payload payload' : Bytes}
    (same : signedPart tag id payload = signedPart tag' id' payload') :
    tag = tag' ∧ id = id' ∧ payload = payload' := by
  simp only [signedPart, header, List.append_assoc] at same
  obtain ⟨sameTag, rest⟩ := Wire.Codec.total_u16.append_inj trivial trivial same
  exact ⟨sameTag, RequestId.total_codec.append_inj trivial trivial rest⟩

/-- A key has signed the frame: the key stands behind the header, the signature behind the key, and
it is a right signature of all other bytes. -/
structure Authentic (scheme : SignatureScheme) (bytes : Bytes) (key : PublicKey) : Prop where
  long : 99 ≤ bytes.length
  parses : PublicKey.ofBytes scheme ((bytes.drop 3).take 32) = .ok key
  verified : key.verify scheme (bytes.take 3 ++ bytes.drop 99) ((bytes.drop 35).take 64) = true

/-- Why a frame of a signed tag is refused that no key has signed. It depends on the bytes up to the
payload, and on whether the signature is right. -/
def refusal (scheme : SignatureScheme) (bytes : Bytes) : FrameError :=
  if bytes.length < 3 then .malformed (.truncated "u8")
  else if bytes.length < 35 then .malformed (.truncated "public key")
  else if bytes.length < 99 then .malformed (.truncated "signature")
  else
    match PublicKey.ofBytes scheme ((bytes.drop 3).take 32) with
    | .error cause => .key cause
    | .ok _ => .badSignature

theorem next_bytes (count : Nat) (what : String) (bytes : Bytes) :
    next (Wire.Reader.bytes count what) bytes =
      if short : bytes.length < count then .error (.malformed (.truncated what))
      else
        .ok (⟨bytes.take count, List.length_take_of_le (Nat.le_of_not_lt short)⟩,
          bytes.drop count) := by
  by_cases short : bytes.length < count <;> simp [next, Wire.Reader.bytes, Wire.Reader.run, short]

/-- What is decided about the bytes after a header, and in which order. -/
theorem authenticate_eq (tag : UInt16) (id : RequestId) (bytes : Bytes) :
    authenticate scheme tag id bytes =
      if bytes.length < 32 then .error (.malformed (.truncated "public key"))
      else if bytes.length < 96 then .error (.malformed (.truncated "signature"))
      else match PublicKey.ofBytes scheme (bytes.take 32) with
        | .error cause => .error (.key cause)
        | .ok key =>
          if key.verify scheme (signedPart tag id (bytes.drop 96)) ((bytes.drop 32).take 64) then
            .ok (key, bytes.drop 96)
          else .error .badSignature := by
  by_cases noKey : bytes.length < 32
  · simp [authenticate, next_bytes, Crypto.publicKeySize, noKey, bind, Except.bind]
  · by_cases noSignature : bytes.length < 96
    · have rest : bytes.length - 32 < 64 := by omega
      simp [authenticate, next_bytes, Crypto.publicKeySize, Crypto.signatureSize, noKey, noSignature,
        rest, bind, Except.bind]
    · have rest : ¬ bytes.length - 32 < 64 := by omega
      simp only [authenticate, next_bytes, Crypto.publicKeySize, Crypto.signatureSize, noKey,
        noSignature, rest, bind, Except.bind, List.length_drop, dite_false, if_false,
        List.drop_drop]
      cases PublicKey.ofBytes scheme (bytes.take 32) <;> rfl

section Decision

variable {bytes : Bytes} {tag : UInt16} (tagged : tagOf? bytes = some tag)
include tagged

/-- What the receiver checks the signature against is what the sender signs. -/
theorem take_header (long : 3 ≤ bytes.length) : bytes.take 3 = header tag (requestIdOf bytes) := by
  have front := header_of_tagOf? tagged long
  have length : (header tag (requestIdOf bytes)).length = 3 := by rw [header_eq]; rfl
  rw [front, List.take_left' length, ← front]

theorem authenticate_of_authentic {key : PublicKey} (authentic : Authentic scheme bytes key) :
    authenticate scheme tag (requestIdOf bytes) (bytes.drop 3) = .ok (key, bytes.drop 99) := by
  obtain ⟨long, parses, verified⟩ := authentic
  have hasKey : ¬ bytes.length - 3 < 32 := by omega
  have hasSignature : ¬ bytes.length - 3 < 96 := by omega
  rw [take_header tagged (by omega)] at verified
  rw [authenticate_eq, List.length_drop, if_neg hasKey, if_neg hasSignature, parses, List.drop_drop,
    List.drop_drop]
  exact if_pos verified

theorem authenticate_of_not_authentic (long : 3 ≤ bytes.length)
    (unsigned : ∀ key, ¬ Authentic scheme bytes key) :
    authenticate scheme tag (requestIdOf bytes) (bytes.drop 3) = .error (refusal scheme bytes) := by
  have headed : ¬ bytes.length < 3 := by omega
  have noKey : bytes.length - 3 < 32 ↔ bytes.length < 35 := by omega
  have noSignature : bytes.length - 3 < 96 ↔ bytes.length < 99 := by omega
  simp only [authenticate_eq, refusal, List.length_drop, headed, noKey, noSignature, if_false]
  split
  · rfl
  · split
    · rfl
    · rename_i complete
      cases parses : PublicKey.ofBytes scheme ((bytes.drop 3).take 32) with
      | error cause => rfl
      | ok key =>
        refine if_neg fun verified => unsigned key ⟨by omega, parses, ?_⟩
        rw [List.drop_drop, List.drop_drop] at verified
        rw [take_header tagged long]
        exact verified

variable {entry : Message.Entry M} (found : Vocabulary.lookup M tag = some entry)
  (authenticated : entry.authenticated = true)
include found authenticated

theorem decode_of_authentic {key : PublicKey} (authentic : Authentic scheme bytes key) :
    decode scheme M bytes =
      ((entry.payload.runAll (bytes.drop 99)).mapError .malformed).map fun message =>
        ⟨tag, requestIdOf bytes, some key, message⟩ := by
  have front := header_of_tagOf? tagged (by have := authentic.long; omega)
  rw [front, decode_header_append found, ← front, if_pos authenticated,
    authenticate_of_authentic tagged authentic]
  simp only [bind, Except.bind]
  cases entry.payload.runAll (bytes.drop 99) <;> rfl

theorem decode_of_not_authentic (unsigned : ∀ key, ¬ Authentic scheme bytes key) :
    decode scheme M bytes = .error (refusal scheme bytes) := by
  by_cases long : 3 ≤ bytes.length
  · have front := header_of_tagOf? tagged long
    have refused := authenticate_of_not_authentic tagged long unsigned
    rw [front, decode_header_append found, ← front, if_pos authenticated, refused]
    rfl
  · have front := write_of_tagOf? tagged
    have ended : bytes.drop 2 = [] := List.drop_eq_nil_of_le (by omega)
    have read := next_eq_ok_iff.mpr ((Wire.Codec.total_u16 _ tag _).mpr ⟨trivial, front⟩)
    rw [decode, read, ended, refusal, if_pos (by omega)]
    simp only [bind, Except.bind, found]
    rfl

end Decision

theorem refusal_take (bytes : Bytes) : refusal scheme (bytes.take 99) = refusal scheme bytes := by
  have noId : (bytes.take 99).length < 3 ↔ bytes.length < 3 := by rw [List.length_take]; omega
  have noKey : (bytes.take 99).length < 35 ↔ bytes.length < 35 := by rw [List.length_take]; omega
  have noSignature : (bytes.take 99).length < 99 ↔ bytes.length < 99 := by
    rw [List.length_take]
    omega
  have key : ((bytes.take 99).drop 3).take 32 = (bytes.drop 3).take 32 := by
    rw [List.drop_take, List.take_take]
    rfl
  simp only [refusal, noId, noKey, noSignature, key]

theorem tagOf?_take (bytes : Bytes) : tagOf? (bytes.take 99) = tagOf? bytes := by
  match bytes with
  | [] => rfl
  | [_] => rfl
  | _ :: _ :: _ => rfl

/-- Frames of a signed tag that no key has signed, and that differ in their payloads only, are
refused alike. -/
theorem refused_alike {left right : Bytes} {tag : UInt16} (tagged : tagOf? left = some tag)
    (signed : Vocabulary.isSigned M tag = true) (alike : left.take 99 = right.take 99)
    (forged : ∀ key, ¬ Authentic scheme left key) (forged' : ∀ key, ¬ Authentic scheme right key) :
    decode scheme M left = decode scheme M right := by
  obtain ⟨entry, found, authenticated⟩ := Vocabulary.lookup_of_isSigned signed
  have tagged' : tagOf? right = some tag := by
    rw [← tagOf?_take, ← alike, tagOf?_take, tagged]
  rw [decode_of_not_authentic tagged found authenticated forged,
    decode_of_not_authentic tagged' found authenticated forged', ← refusal_take left, alike,
    refusal_take]

/-- A client's frame of a signed tag is decoded only if the key in it has signed the rest of it, and
then to an envelope with this signer. If the signature is not right, that is what is reported, and
any frame that is not authentic is refused for what stands before its payload, whatever the payload
is. No two frames to be signed have the same bytes to be signed. -/
theorem authenticated_before_payload (scheme : SignatureScheme) :
    (∀ (bytes : Bytes) (tag : UInt16), tagOf? bytes = some tag →
      Vocabulary.isSigned ClientMessage tag = true →
      (∀ envelope, decode scheme ClientMessage bytes = .ok envelope →
        ∃ key, Authentic scheme bytes key ∧ envelope.signer = some key) ∧
      (∀ key, 99 ≤ bytes.length → PublicKey.ofBytes scheme ((bytes.drop 3).take 32) = .ok key →
        key.verify scheme (bytes.take 3 ++ bytes.drop 99) ((bytes.drop 35).take 64) = false →
        decode scheme ClientMessage bytes = .error .badSignature) ∧
      ((∀ key, ¬ Authentic scheme bytes key) →
        decode scheme ClientMessage bytes = .error (refusal scheme bytes) ∧
        ∀ other, (∀ key, ¬ Authentic scheme other key) → other.take 99 = bytes.take 99 →
          decode scheme ClientMessage other = decode scheme ClientMessage bytes)) ∧
    ∀ (tag tag' : UInt16) (id id' : RequestId) (payload payload' : Bytes),
      signedPart tag id payload = signedPart tag' id' payload' →
      tag = tag' ∧ id = id' ∧ payload = payload' := by
  constructor
  · intro bytes tag tagged signed
    obtain ⟨entry, found, authenticated⟩ := Vocabulary.lookup_of_isSigned signed
    refine ⟨?_, ?_, ?_⟩
    · intro envelope decoded
      by_cases owned : ∃ key, Authentic scheme bytes key
      · obtain ⟨key, authentic⟩ := owned
        rw [decode_of_authentic tagged found authenticated authentic] at decoded
        cases read : entry.payload.runAll (bytes.drop 99) with
        | error cause =>
          rw [read] at decoded
          cases decoded
        | ok message =>
          rw [read] at decoded
          cases decoded
          exact ⟨key, authentic, rfl⟩
      · rw [decode_of_not_authentic tagged found authenticated (not_exists.mp owned)] at decoded
        cases decoded
    · intro key long parses wrong
      have forged : ∀ key, ¬ Authentic scheme bytes key := by
        intro other authentic
        obtain rfl := Except.ok.inj (parses.symm.trans authentic.parses)
        rw [authentic.verified] at wrong
        cases wrong
      have reason : refusal scheme bytes = .badSignature := by
        rw [refusal, if_neg (by omega), if_neg (by omega), if_neg (by omega), parses]
      rw [decode_of_not_authentic tagged found authenticated forged, reason]
    · intro forged
      refine ⟨decode_of_not_authentic tagged found authenticated forged, ?_⟩
      intro other forged' alike
      exact (refused_alike tagged signed alike.symm forged forged').symm
  · intro tag tag' id id' payload payload' same
    exact signedPart_inj same

/-- A byte that the signer did not sign spoils a question that is genuine without it. -/
theorem genuine_and_forged_question :
    let genuine := header 2 ⟨5⟩ ++ sampleKeys.publicKey.bytes.val ++
      (sampleKeys.sign Crypto.ed25519 (signedPart 2 ⟨5⟩ [])).val
    let forged := genuine ++ [0]
    (∃ key, Authentic Crypto.ed25519 genuine key ∧ some sampleKeys.publicKey = some key) ∧
      decode Crypto.ed25519 ClientMessage forged = .error .badSignature := by
  intro genuine forged
  have authenticated := (authenticated_before_payload Crypto.ed25519).1
  have decoded : decode Crypto.ed25519 ClientMessage genuine =
      .ok ⟨2, ⟨5⟩, some sampleKeys.publicKey, .decayQuery⟩ := decode_sampleQuestion
  have parses : PublicKey.ofBytes Crypto.ed25519 ((forged.drop 3).take 32) =
      .ok sampleKeys.publicKey := by decide +kernel
  have wrong : sampleKeys.publicKey.verify Crypto.ed25519 (forged.take 3 ++ forged.drop 99)
      ((forged.drop 35).take 64) = false := by decide +kernel
  constructor
  · exact (authenticated genuine 2 (by decide +kernel) rfl).1 _ decoded
  · exact (authenticated forged 2 (by decide +kernel) rfl).2.1 _ (by decide +kernel) parses wrong

end Tether.Envelope
