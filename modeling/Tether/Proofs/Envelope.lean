import Tether.Envelope
import Tether.Proofs.Message.Formats

namespace Tether.Envelope

open Crypto (KeyPair SignatureScheme)
open Message (Vocabulary)

theorem header_eq (tag : UInt16) (id : RequestId) :
    header tag id = [UInt8.ofNat (tag.toNat / 256), UInt8.ofNat tag.toNat, id.byte] := by
  simp [header, Wire.Codec.u16, RequestId.codec, Wire.Codec.wrap, Wire.Codec.u8, Bytes.bigEndian]

theorem requestIdOf_header_append (tag : UInt16) (id : RequestId) (rest : Bytes) :
    requestIdOf (header tag id ++ rest) = id := by
  rw [header_eq]
  rfl

theorem tagOf?_write_append (tag : UInt16) (rest : Bytes) :
    tagOf? (Wire.Codec.u16.write tag ++ rest) = some tag := by
  have digits : tagOf? (Wire.Codec.u16.write tag ++ rest) =
      some (UInt16.ofNat (Bytes.toNatBE (Bytes.bigEndian 2 tag.toNat))) := by
    simp [Wire.Codec.u16, tagOf?, Bytes.bigEndian, Bytes.toNatBE]
  rw [digits, Bytes.toNatBE_bigEndian tag.toNat_lt, UInt16.ofNat_toNat]

theorem tagOf?_header_append (tag : UInt16) (id : RequestId) (rest : Bytes) :
    tagOf? (header tag id ++ rest) = some tag := by
  rw [header, List.append_assoc]
  exact tagOf?_write_append ..

theorem requestIdOf_encode {M : Type} [Vocabulary M] {scheme : SignatureScheme} {message : M}
    {id : RequestId} {keys : Option KeyPair} {frame : Bytes}
    (encoded : encode scheme message id keys = .ok frame) : requestIdOf frame = id := by
  simp only [encode] at encoded
  split at encoded
  · cases encoded
  · split at encoded
    · cases keys with
      | none => cases encoded
      | some keys =>
        cases encoded
        simp only [List.append_assoc]
        exact requestIdOf_header_append ..
    · cases encoded
      exact requestIdOf_header_append ..

theorem write_of_tagOf? {bytes : Bytes} {tag : UInt16} (tagged : tagOf? bytes = some tag) :
    bytes = Wire.Codec.u16.write tag ++ bytes.drop 2 := by
  match bytes with
  | [] => cases tagged
  | [_] => cases tagged
  | high :: low :: rest =>
    cases tagged
    have bound : high.toNat * 256 + low.toNat < UInt16.size := by
      have upper := high.toNat_lt
      have lower := low.toNat_lt
      simp only [UInt16.size]
      omega
    have value : Bytes.toNatBE [high, low] = high.toNat * 256 + low.toNat := by
      simp [Bytes.toNatBE]
    have digits := Bytes.bigEndian_toNatBE [high, low]
    rw [value, ← UInt16.toNat_ofNat_of_lt' bound] at digits
    exact congrArg (· ++ rest) digits.symm

/-- A frame that is long enough begins with the header that can be read off it. -/
theorem header_of_tagOf? {bytes : Bytes} {tag : UInt16} (tagged : tagOf? bytes = some tag)
    (long : 3 ≤ bytes.length) : bytes = header tag (requestIdOf bytes) ++ bytes.drop 3 := by
  have front := write_of_tagOf? tagged
  match bytes with
  | high :: low :: byte :: rest =>
    have written : RequestId.codec.write ⟨byte⟩ = [byte] := by
      simp [RequestId.codec, Wire.Codec.wrap, Wire.Codec.u8, Bytes.bigEndian]
    calc high :: low :: byte :: rest
      _ = Wire.Codec.u16.write tag ++ (byte :: rest) := front
      _ = header tag ⟨byte⟩ ++ rest := by rw [header, written, List.append_assoc]; rfl

theorem bind_eq_ok_iff {ε α β : Type} {first : Except ε α} {rest : α → Except ε β} {last : β} :
    (first >>= rest) = .ok last ↔ ∃ value, first = .ok value ∧ rest value = .ok last := by
  cases first with
  | error cause =>
    constructor
    · intro ok
      cases ok
    · rintro ⟨_, ok, _⟩
      cases ok
  | ok value =>
    constructor
    · intro ok
      exact ⟨value, rfl, ok⟩
    · rintro ⟨_, same, ok⟩
      cases same
      exact ok

theorem next_eq_ok_iff {α : Type} {reader : Wire.Reader α} {bytes rest : Bytes} {value : α} :
    next reader bytes = .ok (value, rest) ↔ reader.run bytes = (.ok value, rest) := by
  rw [next]
  split <;> simp_all

theorem read_header_iff {bytes afterTag afterId : Bytes} {tag : UInt16} {id : RequestId} :
    next Wire.Codec.u16.read bytes = .ok (tag, afterTag) ∧
        next RequestId.codec.read afterTag = .ok (id, afterId) ↔
      bytes = header tag id ++ afterId ∧ afterTag = RequestId.codec.write id ++ afterId := by
  simp only [next_eq_ok_iff, Wire.Codec.total_u16 _ _ _, RequestId.total_codec _ _ _, true_and]
  constructor
  · rintro ⟨rfl, rfl⟩
    exact ⟨(List.append_assoc ..).symm, rfl⟩
  · rintro ⟨rfl, rfl⟩
    exact ⟨List.append_assoc .., rfl⟩

theorem header_of_decode {M : Type} [Vocabulary M] {scheme : SignatureScheme} {frame : Bytes}
    {envelope : Envelope M} (decoded : decode scheme M frame = .ok envelope) :
    ∃ rest entry, frame = header envelope.tag envelope.requestId ++ rest ∧
      Vocabulary.lookup M envelope.tag = some entry := by
  obtain ⟨⟨tag, afterTag⟩, tagged, after⟩ := bind_eq_ok_iff.mp decoded
  dsimp only at after
  split at after
  · cases after
  · rename_i entry found
    obtain ⟨⟨id, afterId⟩, named, read⟩ := bind_eq_ok_iff.mp after
    have front := (read_header_iff.mp ⟨tagged, named⟩).1
    dsimp only at read
    split at read
    · obtain ⟨⟨signer, payload⟩, _, verified⟩ := bind_eq_ok_iff.mp read
      obtain ⟨message, _, built⟩ := bind_eq_ok_iff.mp verified
      cases built
      exact ⟨afterId, entry, front, found⟩
    · obtain ⟨message, _, built⟩ := bind_eq_ok_iff.mp read
      cases built
      exact ⟨afterId, entry, front, found⟩

/-- What can be read off a frame without decoding it is what decoding finds. -/
theorem glance_of_decode {M : Type} [Vocabulary M] {scheme : SignatureScheme} {frame : Bytes}
    {envelope : Envelope M} (decoded : decode scheme M frame = .ok envelope) :
    requestIdOf frame = envelope.requestId ∧ tagOf? frame = some envelope.tag := by
  obtain ⟨rest, _, rfl, _⟩ := header_of_decode decoded
  exact ⟨requestIdOf_header_append .., tagOf?_header_append ..⟩

end Tether.Envelope
