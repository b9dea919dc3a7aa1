import Tether.Proofs.Envelope.Layout

namespace Tether

open Crypto (KeyPair PublicKey SignatureScheme)
open Message (Vocabulary ClientMessage ServerMessage)

/-- What a signature scheme owes the owner of a pair of keys who signs some bytes. -/
structure Crypto.KeyPair.Vouches (scheme : SignatureScheme) (pair : KeyPair) (content : Bytes) :
    Prop where
  /-- The public key is read back. -/
  parses : PublicKey.ofBytes scheme pair.publicKey.bytes.val = .ok pair.publicKey
  /-- The signature is found right. -/
  verifies : pair.publicKey.verify scheme content (pair.sign scheme content).val = true

namespace Envelope

variable {M : Type} [Vocabulary M] {fits : M → Prop} {scheme : SignatureScheme}

/-- What was encoded is decoded to the same message, under its tag and id, with the signer if the
message is one to be signed. Without keys such a message has no frame. -/
def RoundTrips (scheme : SignatureScheme) (message : M) (id : RequestId) (keys : Option KeyPair) :
    Prop :=
  match Vocabulary.isSigned M (Vocabulary.tag message), keys with
  | true, none => encode scheme message id keys = .error (.missingKeys (Vocabulary.tag message))
  | true, some pair => ∃ frame, encode scheme message id keys = .ok frame ∧
      decode scheme M frame = .ok ⟨Vocabulary.tag message, id, some pair.publicKey, message⟩
  | false, _ => ∃ frame, encode scheme message id keys = .ok frame ∧
      decode scheme M frame = .ok ⟨Vocabulary.tag message, id, none, message⟩

theorem roundTrips_of_lawful (lawful : Vocabulary.Lawful M fits) {message : M} (fit : fits message)
    (id : RequestId) (keys : Option KeyPair)
    (vouched : Vocabulary.isSigned M (Vocabulary.tag message) = true → ∀ pair ∈ keys,
      pair.Vouches scheme (signedPart (Vocabulary.tag message) id (Vocabulary.payload message))) :
    RoundTrips scheme message id keys := by
  unfold RoundTrips
  split
  · rename_i signed
    exact encode_without_keys lawful signed id
  · rename_i pair signed
    have vouches := vouched signed pair rfl
    have accepted := (ofBytes_eq_ok_iff.mp vouches.parses).2
    exact ⟨_, encode_signed lawful signed id pair,
      (decode_eq_ok_iff lawful).mpr
        ⟨fit, .signed id message pair.publicKey _ signed accepted vouches.verifies⟩⟩
  · rename_i unsigned
    exact ⟨_, encode_plain lawful unsigned id _,
      (decode_eq_ok_iff lawful).mpr ⟨fit, .plain id message unsigned⟩⟩

/-- Every message of either direction whose texts and ciphertexts are short makes the round trip. -/
theorem every_message_round_trips (scheme : SignatureScheme) (id : RequestId)
    (keys : Option KeyPair) :
    (∀ message : ClientMessage, message.Short →
      (∀ pair ∈ keys, pair.Vouches scheme
        (signedPart (Vocabulary.tag message) id (Vocabulary.payload message))) →
      RoundTrips scheme message id keys) ∧
    ∀ message : ServerMessage, message.Short → RoundTrips scheme message id keys := by
  constructor
  · intro message short vouched
    exact roundTrips_of_lawful ClientMessage.lawful short id keys fun _ => vouched
  · intro message short
    refine roundTrips_of_lawful ServerMessage.lawful short id keys fun signed => ?_
    rw [ServerMessage.isSigned_eq_false] at signed
    cases signed

def sampleKeys : KeyPair := KeyPair.ofPrivate Crypto.ed25519 ⟨⟨List.replicate 32 7, rfl⟩⟩

/-- Names, which are signed, with real keys. -/
theorem signed_name_round_trips :
    let name : ClientMessage := .identity (.plain "Ada")
    name.Short ∧ sampleKeys.Vouches Crypto.ed25519
        (signedPart (Vocabulary.tag name) ⟨5⟩ (Vocabulary.payload name)) ∧
      RoundTrips Crypto.ed25519 name ⟨5⟩ (some sampleKeys) := by
  intro name
  have short : name.Short := by decide
  have vouches : sampleKeys.Vouches Crypto.ed25519
      (signedPart (Vocabulary.tag name) ⟨5⟩ (Vocabulary.payload name)) :=
    ⟨by decide +kernel, by decide +kernel⟩
  refine ⟨short, vouches, ?_⟩
  refine (every_message_round_trips Crypto.ed25519 ⟨5⟩ (some sampleKeys)).1 name short ?_
  rintro pair same
  cases same
  exact vouches

theorem Frames.plain_layout {envelope : Envelope M} {bytes : Bytes}
    (frames : Frames scheme envelope bytes)
    (unsigned : Vocabulary.isSigned M envelope.tag = false) :
    envelope.tag = Vocabulary.tag envelope.message ∧
      bytes = header envelope.tag envelope.requestId ++ Vocabulary.payload envelope.message := by
  cases frames with
  | plain id message _ => exact ⟨rfl, rfl⟩
  | signed id message signer signature signed _ _ =>
    rw [signed] at unsigned
    cases unsigned

theorem Frames.signed_layout {envelope : Envelope M} {bytes : Bytes}
    (frames : Frames scheme envelope bytes)
    (signed : Vocabulary.isSigned M envelope.tag = true) :
    ∃ (signer : PublicKey) (signature : FixedBytes Crypto.signatureSize),
      envelope.signer = some signer ∧
      bytes = header envelope.tag envelope.requestId ++ signer.bytes.val ++ signature.val ++
        Vocabulary.payload envelope.message := by
  cases frames with
  | plain id message unsigned =>
    rw [unsigned] at signed
    cases signed
  | signed id message signer signature _ _ _ =>
    exact ⟨signer, signature, rfl, by simp only [List.append_assoc]⟩

/-- The byte strings differ in the bytes of a signature at most. -/
structure SameButSignature (left right : Bytes) : Prop where
  length : left.length = right.length
  before : left.take 35 = right.take 35
  after : left.drop 99 = right.drop 99

theorem encode_of_decode (lawful : Vocabulary.Lawful M fits) {bytes : Bytes}
    {envelope : Envelope M} (decoded : decode scheme M bytes = .ok envelope)
    (unsigned : Vocabulary.isSigned M envelope.tag = false) (keys : Option KeyPair) :
    encode scheme envelope.message envelope.requestId keys = .ok bytes := by
  have frames := ((decode_eq_ok_iff lawful).mp decoded).2
  obtain ⟨named, rfl⟩ := frames.plain_layout unsigned
  rw [named] at unsigned ⊢
  exact encode_plain lawful unsigned envelope.requestId keys

/-- No two frames of an unsigned tag are decoded to one envelope. -/
theorem decode_inj (lawful : Vocabulary.Lawful M fits) {left right : Bytes}
    {envelope : Envelope M} (unsigned : Vocabulary.isSigned M envelope.tag = false)
    (one : decode scheme M left = .ok envelope) (other : decode scheme M right = .ok envelope) :
    left = right := by
  have first := encode_of_decode lawful one unsigned none
  have second := encode_of_decode lawful other unsigned none
  exact Except.ok.inj (first.symm.trans second)

theorem sameButSignature_of_layout {tag : UInt16} {id : RequestId} (signer : PublicKey)
    (left right : FixedBytes Crypto.signatureSize) (payload : Bytes) :
    SameButSignature (header tag id ++ signer.bytes.val ++ left.val ++ payload)
      (header tag id ++ signer.bytes.val ++ right.val ++ payload) := by
  have front : (header tag id ++ signer.bytes.val).length = 35 := by
    rw [List.length_append, signer.bytes.property, header_eq]
    rfl
  have middle (signature : FixedBytes Crypto.signatureSize) :
      (header tag id ++ signer.bytes.val ++ signature.val).length = 99 := by
    rw [List.length_append, front, signature.property]
    rfl
  constructor
  · simp only [List.length_append, left.property, right.property]
  · rw [List.append_assoc _ left.val, List.append_assoc _ right.val, List.take_left' front,
      List.take_left' front]
  · rw [List.drop_left' (middle left), List.drop_left' (middle right)]

/-- Two frames of a signed tag that are decoded to one envelope are signed by one key. -/
theorem sameButSignature_of_decode (lawful : Vocabulary.Lawful M fits) {left right : Bytes}
    {envelope : Envelope M} (signed : Vocabulary.isSigned M envelope.tag = true)
    (one : decode scheme M left = .ok envelope) (other : decode scheme M right = .ok envelope) :
    SameButSignature left right := by
  obtain ⟨signer, first, named, rfl⟩ := ((decode_eq_ok_iff lawful).mp one).2.signed_layout signed
  obtain ⟨_, second, same, rfl⟩ := ((decode_eq_ok_iff lawful).mp other).2.signed_layout signed
  obtain rfl := Option.some.inj (named.symm.trans same)
  exact sameButSignature_of_layout signer first second _

/-- The decoder accepts only what the encoder writes. A frame of a server is the encoding of its
message, and so is an unsigned frame of a client. A signed frame is laid out as its envelope says,
and only the bytes of the signature are free. -/
theorem accepted_frames_are_canonical (scheme : SignatureScheme) :
    (∀ (bytes : Bytes) (envelope : Envelope ServerMessage),
      decode scheme ServerMessage bytes = .ok envelope →
      (∀ keys, encode scheme envelope.message envelope.requestId keys = .ok bytes) ∧
      ∀ other, decode scheme ServerMessage other = .ok envelope → other = bytes) ∧
    ∀ (bytes : Bytes) (envelope : Envelope ClientMessage),
      decode scheme ClientMessage bytes = .ok envelope →
      if Vocabulary.isSigned ClientMessage envelope.tag then
        (∃ (signer : PublicKey) (signature : FixedBytes Crypto.signatureSize),
          envelope.signer = some signer ∧
          bytes = header envelope.tag envelope.requestId ++ signer.bytes.val ++ signature.val ++
            Vocabulary.payload envelope.message) ∧
        ∀ other, decode scheme ClientMessage other = .ok envelope → SameButSignature other bytes
      else
        (∀ keys, encode scheme envelope.message envelope.requestId keys = .ok bytes) ∧
        ∀ other, decode scheme ClientMessage other = .ok envelope → other = bytes := by
  constructor
  · intro bytes envelope decoded
    have unsigned := ServerMessage.isSigned_eq_false envelope.tag
    exact ⟨encode_of_decode ServerMessage.lawful decoded unsigned, fun other same =>
      decode_inj ServerMessage.lawful unsigned same decoded⟩
  · intro bytes envelope decoded
    split
    · rename_i signed
      exact ⟨((decode_eq_ok_iff ClientMessage.lawful).mp decoded).2.signed_layout signed,
        fun other same => sameButSignature_of_decode ClientMessage.lawful signed same decoded⟩
    · rename_i signed
      have unsigned := Bool.eq_false_of_not_eq_true signed
      exact ⟨encode_of_decode ClientMessage.lawful decoded unsigned, fun other same =>
        decode_inj ClientMessage.lawful unsigned same decoded⟩

theorem decode_sampleQuestion :
    decode Crypto.ed25519 ClientMessage (header 2 ⟨5⟩ ++ sampleKeys.publicKey.bytes.val ++
        (sampleKeys.sign Crypto.ed25519 (signedPart 2 ⟨5⟩ [])).val) =
      .ok ⟨2, ⟨5⟩, some sampleKeys.publicKey, .decayQuery⟩ := by
  decide +kernel

/-- The server's answer to a ping and a signed question of a client. -/
theorem answer_and_question_are_canonical :
    let answer : Bytes := [0, 1, 5, 0, 0, 0, 0, 0, 0, 0, 9, 0]
    let question := header 2 ⟨5⟩ ++ sampleKeys.publicKey.bytes.val ++
      (sampleKeys.sign Crypto.ed25519 (signedPart 2 ⟨5⟩ [])).val
    decode Crypto.ed25519 ServerMessage answer = .ok ⟨1, ⟨5⟩, none, .status ⟨⟨9⟩, .ok⟩⟩ ∧
      decode Crypto.ed25519 ClientMessage question =
        .ok ⟨2, ⟨5⟩, some sampleKeys.publicKey, .decayQuery⟩ ∧
      encode Crypto.ed25519 (.status ⟨⟨9⟩, .ok⟩ : ServerMessage) ⟨5⟩ none = .ok answer ∧
      ∀ other, decode Crypto.ed25519 ClientMessage other =
        .ok ⟨2, ⟨5⟩, some sampleKeys.publicKey, .decayQuery⟩ → SameButSignature other question := by
  intro answer question
  have answered : decode Crypto.ed25519 ServerMessage answer =
      .ok ⟨1, ⟨5⟩, none, .status ⟨⟨9⟩, .ok⟩⟩ := by decide +kernel
  have asked : decode Crypto.ed25519 ClientMessage question =
      .ok ⟨2, ⟨5⟩, some sampleKeys.publicKey, .decayQuery⟩ := decode_sampleQuestion
  have canonical := accepted_frames_are_canonical Crypto.ed25519
  exact ⟨answered, asked, (canonical.1 answer _ answered).1 none, (canonical.2 question _ asked).2⟩

end Envelope

end Tether
