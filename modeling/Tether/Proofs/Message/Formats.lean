import Tether.Message.Client
import Tether.Message.Server
import Tether.Proofs.Wire.Codec

namespace Tether

open Wire (Codec)

theorem RequestId.total_codec : RequestId.codec.Total :=
  Codec.total_u8.wrap (fun _ => rfl) fun _ => rfl

theorem Time.Duration.total_codec : Time.Duration.codec.Total :=
  Codec.total_u64.wrap (fun _ => rfl) fun _ => rfl

theorem Time.Timestamp.total_codec : Time.Timestamp.codec.Total :=
  Codec.total_u64.wrap (fun _ => rfl) fun _ => rfl

theorem Time.ServerTimestamp.total_codec : Time.ServerTimestamp.codec.Total :=
  Codec.total_u64.wrap (fun _ => rfl) fun _ => rfl

namespace Crypto.SafeText

/-- The text, or its encryption, is short. -/
def Short : SafeText → Prop
  | .plain text => (Bytes.ofText text).Short
  | .sealed value => value.data.Short

instance : DecidablePred Short
  | .plain text => inferInstanceAs (Decidable (Bytes.ofText text).Short)
  | .sealed value => inferInstanceAs (Decidable value.data.Short)

theorem exact_codec : codec.Exact Short := by
  refine Codec.exact_of_kinds
    (fun
      | .plain _ => 0
      | .sealed _ => 1)
    (fun
      | .plain text => Codec.text.write text
      | .sealed value => value.salt.val ++ (Codec.sized "ciphertext").write value.data)
    _ ?_ rfl ?_
  · rintro (text | value)
    · rfl
    · exact List.append_assoc ..
  · intro byte input value left
    split
    · rw [Wire.Reader.bind_eq, Codec.exact_text.run_bind]
      cases value <;> simp [Wire.Reader.pure_eq, Wire.Reader.run, Short, Bytes.Short]
    · simp only [Wire.Reader.bind_eq, Wire.Reader.pure_eq, Wire.Reader.run_bind_eq_ok,
        Wire.Reader.run_bytes_eq_ok, Wire.Reader.run_done_eq_ok, Codec.exact_sized _ _ _ _]
      constructor
      · rintro ⟨salt, _, rfl, data, _, ⟨short, rfl⟩, rfl, rfl⟩
        exact ⟨rfl, short, (List.append_assoc ..).symm⟩
      · rintro ⟨marked, short, rfl⟩
        cases value with
        | plain text => cases marked
        | sealed value =>
          exact ⟨value.salt, _, List.append_assoc .., value.data, left, ⟨short, rfl⟩, rfl, rfl⟩
    · cases value <;> simp_all [Wire.Reader.run, eq_comm]

end Crypto.SafeText

namespace Message

theorem Status.total_codec : Status.codec.Total := by
  refine Codec.exact_of_kinds (fun _ => 0) (fun _ => []) _ (fun value => ?_) rfl ?_
  · cases value
    rfl
  · intro byte input value left
    split <;> cases value <;> simp_all [Wire.Reader.pure_eq, Wire.Reader.run, eq_comm]

theorem FaultCode.total_codec : FaultCode.codec.Total := by
  refine Codec.exact_of_kinds FaultCode.byte (fun _ => []) _
    (fun _ => (List.append_nil _).symm) rfl ?_
  intro byte input value left
  split <;> cases value <;>
    simp_all [Wire.Reader.pure_eq, Wire.Reader.run, FaultCode.byte, eq_comm]

theorem ServerStatus.total_codec : ServerStatus.codec.Total := by
  intro input value left
  refine Time.ServerTimestamp.total_codec.run_bind.trans ?_
  simp only [Wire.Reader.bind_eq, Status.total_codec.run_bind, Wire.Reader.pure_eq, true_and,
    Wire.Reader.run_done_eq_ok]
  constructor
  · rintro ⟨timestamp, _, rfl, status, _, rfl, rfl, rfl⟩
    exact (List.append_assoc ..).symm
  · rintro rfl
    exact ⟨_, _, List.append_assoc .., _, _, rfl, rfl, rfl⟩

theorem Decay.total_codec : Decay.codec.Total := by
  intro input value left
  refine Time.ServerTimestamp.total_codec.run_bind.trans ?_
  simp only [Wire.Reader.bind_eq, Time.Duration.total_codec.run_bind, Wire.Reader.pure_eq, true_and,
    Wire.Reader.run_done_eq_ok]
  constructor
  · rintro ⟨startedAt, _, rfl, length, _, rfl, rfl, rfl⟩
    exact (List.append_assoc ..).symm
  · rintro rfl
    exact ⟨_, _, List.append_assoc .., _, _, rfl, rfl, rfl⟩

def Fault.Short (fault : Fault) : Prop :=
  (Bytes.ofText fault.description).Short ∧ ∀ context ∈ fault.context, (Bytes.ofText context).Short

instance : DecidablePred Fault.Short := fun fault =>
  inferInstanceAs (Decidable ((Bytes.ofText fault.description).Short ∧
    ∀ context ∈ fault.context, (Bytes.ofText context).Short))

theorem Fault.exact_codec : Fault.codec.Exact Fault.Short := by
  intro input value left
  refine FaultCode.total_codec.run_bind.trans ?_
  simp only [Wire.Reader.bind_eq, Codec.exact_text.run_bind, Codec.exact_text.option.run_bind,
    RequestId.total_codec.run_bind, Codec.total_u16.run_bind, Codec.total_flag.run_bind,
    Wire.Reader.pure_eq, Wire.Reader.run_done_eq_ok, true_and]
  constructor
  · rintro ⟨code, _, rfl, description, _, ⟨short, rfl⟩, context, _, ⟨present, rfl⟩, id, _, rfl, tag, _,
      rfl, recoverable, _, rfl, rfl, rfl⟩
    exact ⟨⟨short, present⟩, by simp only [Fault.codec, List.append_assoc]⟩
  · rintro ⟨⟨short, present⟩, rfl⟩
    refine ⟨value.code, _, ?_, value.description, _, ⟨short, rfl⟩, value.context, _, ⟨present, rfl⟩,
      value.requestId, _, rfl, value.messageTag, _, rfl, value.recoverable, left, rfl, rfl, rfl⟩
    simp only [Fault.codec, List.append_assoc]

namespace Vocabulary

/-- Frames with this tag carry a key and a signature. -/
def isSigned (M : Type) [Vocabulary M] (tag : UInt16) : Bool :=
  (lookup M tag).any Entry.authenticated

theorem isSigned_of_lookup {M : Type} [Vocabulary M] {tag : UInt16} {entry : Entry M}
    (found : lookup M tag = some entry) : isSigned M tag = entry.authenticated := by
  rw [isSigned, found, Option.any_some]

theorem lookup_of_isSigned {M : Type} [Vocabulary M] {tag : UInt16}
    (signed : isSigned M tag = true) :
    ∃ entry, lookup M tag = some entry ∧ entry.authenticated = true := by
  cases found : lookup M tag with
  | none =>
    rw [isSigned, found] at signed
    cases signed
  | some entry => exact ⟨entry, rfl, (isSigned_of_lookup found).symm.trans signed⟩

theorem mem_of_lookup {M : Type} [Vocabulary M] {tag : UInt16} {entry : Entry M}
    (found : lookup M tag = some entry) : entry ∈ table ∧ entry.tag = tag := by
  rw [lookup] at found
  have same := List.find?_some found
  exact ⟨List.mem_of_find?_eq_some found, eq_of_beq same⟩

/-- The table and the encoder of a vocabulary agree: every message has a row under its tag, and the
payload reader of a row finds a message just in that message's own payload. -/
structure Lawful (M : Type) [Vocabulary M] (fits : M → Prop) : Prop where
  listed : ∀ message : M, (lookup M (tag message)).isSome
  exact : ∀ {tag : UInt16} {entry : Entry M}, lookup M tag = some entry →
    ∀ {bytes : Bytes} {message : M}, entry.payload.runAll bytes = .ok message ↔
      Vocabulary.tag message = tag ∧ fits message ∧ bytes = payload message

theorem Lawful.row {M : Type} [Vocabulary M] {fits : M → Prop} (lawful : Lawful M fits)
    (message : M) : ∃ entry, lookup M (tag message) = some entry ∧
      entry.authenticated = isSigned M (tag message) := by
  obtain ⟨entry, found⟩ := Option.isSome_iff_exists.mp (lawful.listed message)
  exact ⟨entry, found, (isSigned_of_lookup found).symm⟩

end Vocabulary

def ClientMessage.Short : ClientMessage → Prop
  | .ping => True
  | .decayQuery => True
  | .identity name => name.Short

instance : DecidablePred ClientMessage.Short
  | .ping => isTrue trivial
  | .decayQuery => isTrue trivial
  | .identity name => inferInstanceAs (Decidable name.Short)

theorem ClientMessage.lawful : Vocabulary.Lawful ClientMessage Short where
  listed message := by cases message <;> rfl
  exact := by
    intro tag entry found bytes message
    obtain ⟨listed, rfl⟩ := Vocabulary.mem_of_lookup found
    simp only [Vocabulary.table, List.mem_cons, List.not_mem_nil, or_false] at listed
    rcases listed with rfl | rfl | rfl
    · cases message <;>
        simp [Wire.Reader.runAll_eq_ok, Wire.Reader.run, Vocabulary.tag, Vocabulary.payload, Short]
    · cases message <;>
        simp [Wire.Reader.runAll_eq_ok, Wire.Reader.run, Vocabulary.tag, Vocabulary.payload, Short]
    · refine Crypto.SafeText.exact_codec.runAll_bind_done.trans ?_
      cases message <;> simp [Vocabulary.tag, Vocabulary.payload, Short]

def ServerMessage.Short : ServerMessage → Prop
  | .status _ => True
  | .decay _ => True
  | .fault report => report.Short

instance : DecidablePred ServerMessage.Short
  | .status _ => isTrue trivial
  | .decay _ => isTrue trivial
  | .fault report => inferInstanceAs (Decidable report.Short)

theorem ServerMessage.isSigned_eq_false (tag : UInt16) :
    Vocabulary.isSigned ServerMessage tag = false := by
  cases found : Vocabulary.lookup ServerMessage tag with
  | none => rw [Vocabulary.isSigned, found, Option.any_none]
  | some entry =>
    have listed := (Vocabulary.mem_of_lookup found).1
    simp only [Vocabulary.table, List.mem_cons, List.not_mem_nil, or_false] at listed
    rw [Vocabulary.isSigned_of_lookup found]
    rcases listed with rfl | rfl | rfl <;> rfl

theorem ServerMessage.lawful : Vocabulary.Lawful ServerMessage Short where
  listed message := by cases message <;> rfl
  exact := by
    intro tag entry found bytes message
    obtain ⟨listed, rfl⟩ := Vocabulary.mem_of_lookup found
    simp only [Vocabulary.table, List.mem_cons, List.not_mem_nil, or_false] at listed
    rcases listed with rfl | rfl | rfl
    · refine ServerStatus.total_codec.runAll_bind_done.trans ?_
      cases message <;> simp [Vocabulary.tag, Vocabulary.payload, Short]
    · refine Decay.total_codec.runAll_bind_done.trans ?_
      cases message <;> simp [Vocabulary.tag, Vocabulary.payload, Short]
    · refine Fault.exact_codec.runAll_bind_done.trans ?_
      cases message <;> simp [Vocabulary.tag, Vocabulary.payload, Short]

end Message

end Tether
