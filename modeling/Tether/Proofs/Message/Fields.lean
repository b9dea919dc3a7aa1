import Tether.Message.FieldKind
import Tether.Proofs.Message.Formats

namespace Tether.Message

open Wire (Codec Reader)

namespace FieldKind

/-- The texts and the ciphertexts in a value are short. -/
def Short : (kind : FieldKind) → kind.Value → Prop
  | .text => fun value => (Bytes.ofText value).Short
  | .safeText => Crypto.SafeText.Short
  | .identity => Crypto.SafeText.Short
  | .fault => Fault.Short
  | .option kind => fun value => ∀ present ∈ value, kind.Short present
  | _ => fun _ => True

/-- Each kind is read as it is written, and so are options of it. -/
theorem exact_codec (kind : FieldKind) : kind.codec.Exact kind.Short := by
  induction kind with
  | u8 => exact Codec.total_u8
  | u16 => exact Codec.total_u16
  | u32 => exact Codec.total_u32
  | u64 => exact Codec.total_u64
  | flag => exact Codec.total_flag
  | text => exact Codec.exact_text
  | safeText => exact Crypto.SafeText.exact_codec
  | timestamp => exact Time.Timestamp.total_codec
  | serverTimestamp => exact Time.ServerTimestamp.total_codec
  | duration => exact Time.Duration.total_codec
  | status => exact Status.total_codec
  | faultCode => exact FaultCode.total_codec
  | ping => exact Codec.total_unit ()
  | decayQuery => exact Codec.total_unit ()
  | identity => exact Crypto.SafeText.exact_codec
  | serverStatus => exact ServerStatus.total_codec
  | decay => exact Decay.total_codec
  | fault => exact Fault.exact_codec
  | option kind ih => exact ih.option

end FieldKind

namespace Field

def Short (field : Field) : Prop := field.kind.Short field.value

theorem run_read_eq_ok {kind : FieldKind} {input left : Bytes} {field : Field} :
    (read kind).run input = (.ok field, left) ↔
      field.kind = kind ∧ field.Short ∧ input = field.bytes ++ left := by
  simp only [read, Reader.bind_eq, kind.exact_codec.run_bind, Reader.pure_eq, Reader.run_done_eq_ok]
  constructor
  · rintro ⟨value, _, ⟨short, rfl⟩, rfl, rfl⟩
    exact ⟨rfl, short, rfl⟩
  · obtain ⟨kind, value⟩ := field
    rintro ⟨rfl, short, rfl⟩
    exact ⟨value, left, ⟨short, rfl⟩, rfl, rfl⟩

/-- Fields in a row are read if each of them is, on what the one before it left. -/
theorem run_readAll_eq_ok {kinds : List FieldKind} {input left : Bytes} {fields : List Field} :
    (readAll kinds).run input = (.ok fields, left) ↔
      fields.map Field.kind = kinds ∧ (∀ field ∈ fields, field.Short) ∧
        input = writeAll fields ++ left := by
  induction kinds generalizing input left fields with
  | nil =>
    rw [readAll, Reader.run_done_eq_ok, List.map_eq_nil_iff]
    constructor
    · rintro ⟨rfl, rfl⟩
      exact ⟨rfl, by simp, rfl⟩
    · rintro ⟨rfl, -, rfl⟩
      exact ⟨rfl, rfl⟩
  | cons kind kinds ih =>
    simp only [readAll, Reader.bind_eq, Reader.run_bind_eq_ok, run_read_eq_ok, ih, Reader.pure_eq,
      Reader.run_done_eq_ok]
    constructor
    · rintro ⟨field, _, ⟨rfl, short, rfl⟩, fields, _, ⟨rfl, shorts, rfl⟩, rfl, rfl⟩
      exact ⟨rfl, List.forall_mem_cons.mpr ⟨short, shorts⟩, (List.append_assoc ..).symm⟩
    · intro ⟨kinds, shorts, front⟩
      obtain ⟨field, fields, rfl, rfl, rfl⟩ := List.map_eq_cons_iff.mp kinds
      obtain ⟨short, shorts⟩ := List.forall_mem_cons.mp shorts
      rw [writeAll, List.flatMap_cons, List.append_assoc] at front
      exact ⟨field, _, ⟨rfl, short, front⟩, fields, left, ⟨rfl, shorts, rfl⟩, rfl, rfl⟩

/-- A read of any kind comes to a value if and only if the value is short and the input begins with
its encoding; what stands behind that is left. Likewise a row of fields is read from a whole input if
and only if the input is what is written for these fields. -/
theorem read_just_as_written :
    (∀ (kind : FieldKind) (input : Bytes) (value : kind.Value) (left : Bytes),
      kind.codec.read.run input = (.ok value, left) ↔
        kind.Short value ∧ input = kind.codec.write value ++ left) ∧
    ∀ (kinds : List FieldKind) (input : Bytes) (fields : List Field),
      (readAll kinds).runAll input = .ok fields ↔
        fields.map Field.kind = kinds ∧ (∀ field ∈ fields, field.Short) ∧
          input = writeAll fields := by
  constructor
  · intro kind
    exact kind.exact_codec
  · intro kinds input fields
    rw [Reader.runAll_eq_ok, run_readAll_eq_ok, List.append_nil]

end Field

end Tether.Message
