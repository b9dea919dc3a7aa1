import Mathlib.Data.List.Basic
import Tether.Crypto.SafeText
import Tether.Proofs.Bytes

namespace Tether

theorem Bytes.xor_xor_cancel {message stream : Bytes} (enough : message.length ≤ stream.length) :
    xor (xor message stream) stream = message := by
  induction message generalizing stream with
  | nil => rfl
  | cons byte message ih =>
    cases stream with
    | nil => exact absurd enough (Nat.not_succ_le_zero _)
    | cons mask stream =>
      have rest := ih (Nat.le_of_succ_le_succ enough)
      simp only [xor, List.zipWith_cons_cons] at rest ⊢
      rw [rest, UInt8.xor_assoc, UInt8.xor_self, UInt8.xor_zero]

namespace Crypto

namespace ChaCha20

theorem apply_apply (key nonce message : Bytes) :
    apply key nonce (apply key nonce message) = message := by
  rw [apply, length_apply, apply]
  exact Bytes.xor_xor_cancel (le_length_keyStream key nonce message.length)

/-- The byte of the key stream at a position: block 1 comes first. -/
def streamByte (key nonce : Bytes) (position : Nat) : UInt8 :=
  (keyBlock key nonce (UInt32.ofNat (position / 64 + 1))).getD (position % 64) 0

private theorem getElem?_blocks (block : Nat → Bytes) (uniform : ∀ i, (block i).length = 64)
    (first count position : Nat) (within : position < 64 * count) :
    ((List.range' first count).flatMap block)[position]? =
      some ((block (first + position / 64)).getD (position % 64) 0) := by
  induction count generalizing first position with
  | zero => omega
  | succ count ih =>
    rw [List.range'_succ, List.flatMap_cons]
    by_cases here : position < 64
    · have bound : position < (block first).length := by rw [uniform]; exact here
      rw [List.getElem?_append_left bound, Nat.div_eq_of_lt here, Nat.mod_eq_of_lt here,
        Nat.add_zero, List.getD_eq_getElem?_getD, List.getElem?_eq_getElem bound, Option.getD_some]
    · have later := ih (first + 1) (position - 64) (by omega)
      rw [List.getElem?_append_right (by rw [uniform]; omega), uniform, later]
      have quotient : first + 1 + (position - 64) / 64 = first + position / 64 := by omega
      have remainder : (position - 64) % 64 = position % 64 := by omega
      rw [quotient, remainder]

theorem getElem?_keyStream (key nonce : Bytes) {length position : Nat} (within : position < length) :
    (keyStream key nonce length)[position]? = some (streamByte key nonce position) := by
  have placed := getElem?_blocks (fun i => keyBlock key nonce (UInt32.ofNat (i + 1)))
    (fun i => length_keyBlock key nonce _) 0 ((length + 63) / 64) position (by omega)
  rw [Nat.zero_add] at placed
  rw [keyStream, List.range_eq_range', placed]
  rfl

/-- Each byte is changed by the byte of the key stream at its position. -/
theorem apply_eq_mapIdx (key nonce message : Bytes) :
    apply key nonce message =
      message.mapIdx fun position byte => byte ^^^ streamByte key nonce position := by
  apply List.ext_getElem?
  intro position
  rw [apply, Bytes.xor, List.getElem?_zipWith, List.getElem?_mapIdx]
  by_cases within : position < message.length
  · rw [getElem?_keyStream key nonce within, List.getElem?_eq_getElem within]
    rfl
  · rw [List.getElem?_eq_none (Nat.le_of_not_lt within)]
    rfl

end ChaCha20

namespace Sealing

@[simp] theorem length_tag (key nonce encrypted : Bytes) :
    (tag key nonce encrypted).length = 16 :=
  Poly1305.length_tag _ _

@[simp] theorem length_close (key nonce message : Bytes) :
    (close key nonce message).length = message.length + 16 := by
  simp [close]

def encryptedPart (sealed : Bytes) : Bytes := sealed.take (sealed.length - tagSize)

/-- The tag at the end of a sealed form. -/
def tagPart (sealed : Bytes) : Bytes := sealed.drop (sealed.length - tagSize)

theorem encryptedPart_close (key nonce message : Bytes) :
    encryptedPart (close key nonce message) = ChaCha20.apply key nonce message := by
  rw [encryptedPart, length_close, tagSize, Nat.add_sub_cancel, close]
  exact List.take_left' (ChaCha20.length_apply key nonce message)

theorem tagPart_close (key nonce message : Bytes) :
    tagPart (close key nonce message) = tag key nonce (ChaCha20.apply key nonce message) := by
  rw [tagPart, length_close, tagSize, Nat.add_sub_cancel, close]
  exact List.drop_left' (ChaCha20.length_apply key nonce message)

theorem open?_eq (key nonce sealed : Bytes) :
    open? key nonce sealed =
      if tagSize ≤ sealed.length ∧ tagPart sealed = tag key nonce (encryptedPart sealed) then
        some (ChaCha20.apply key nonce (encryptedPart sealed))
      else none := by
  unfold open?
  by_cases short : sealed.length < tagSize
  · rw [if_pos short, if_neg fun both => absurd both.1 (Nat.not_le_of_lt short)]
  · rw [if_neg short]
    simp only [Nat.le_of_not_lt short, true_and]
    rfl

/-- A byte string opens to a message if and only if the message is sealed to it. -/
theorem open?_eq_some_iff {key nonce sealed message : Bytes} :
    open? key nonce sealed = some message ↔ sealed = close key nonce message := by
  rw [open?_eq]
  constructor
  · intro opened
    split at opened
    · rename_i genuine
      have decrypted := Option.some.inj opened
      rw [close, ← decrypted, ChaCha20.apply_apply, ← genuine.2]
      exact (List.take_append_drop _ _).symm
    · cases opened
  · rintro rfl
    rw [encryptedPart_close, tagPart_close, ChaCha20.apply_apply, if_pos]
    exact ⟨by simp [tagSize], rfl⟩

theorem open?_eq_none_iff {key nonce sealed : Bytes} :
    open? key nonce sealed = none ↔
      sealed.length < tagSize ∨ tagPart sealed ≠ tag key nonce (encryptedPart sealed) := by
  rw [open?_eq, ite_eq_right_iff]
  simp only [reduceCtorEq, imp_false, not_and_or, Nat.not_le]

end Sealing

namespace SealedText

variable {key : PrivateKey} {value : SealedText}

theorem reveal_eq_ok_iff {text : String} :
    value.reveal key = .ok text ↔
      Sealing.open? (fieldKey key value.salt) value.salt.val value.data =
        some (Bytes.ofText text) := by
  have read : (Sealing.open? (fieldKey key value.salt) value.salt.val value.data).bind Bytes.text? =
      some text ↔ Sealing.open? (fieldKey key value.salt) value.salt.val value.data =
        some (Bytes.ofText text) := by
    rw [Option.bind_eq_some_iff]
    constructor
    · rintro ⟨message, opened, decoded⟩
      rw [opened, Bytes.text?_eq_some_iff.mp decoded]
    · intro opened
      exact ⟨_, opened, Bytes.text?_eq_some_iff.mpr rfl⟩
  rw [← read]
  unfold reveal
  split
  · rename_i revealed
    rw [revealed, Except.ok.injEq, Option.some.injEq]
  · rename_i none
    rw [none]
    exact iff_of_false nofun nofun

theorem reveal_eq_error_iff :
    value.reveal key = .error .invalidData ↔ ∀ text, value.reveal key ≠ .ok text := by
  unfold reveal
  split
  · rename_i text _
    exact iff_of_false nofun fun none => none text rfl
  · exact iff_of_true rfl nofun

/-- What is no sealed text is too short for a tag, carries a wrong one, or hides no text. -/
theorem refused_iff (key : PrivateKey) (value : SealedText) :
    value.reveal key = .error .invalidData ↔
      value.data.length < Sealing.tagSize ∨
        Sealing.tagPart value.data ≠
          Sealing.tag (fieldKey key value.salt) value.salt.val (Sealing.encryptedPart value.data) ∨
        Bytes.text? (ChaCha20.apply (fieldKey key value.salt) value.salt.val
          (Sealing.encryptedPart value.data)) = none := by
  rw [← or_assoc, ← Sealing.open?_eq_none_iff, reveal_eq_error_iff]
  simp only [Ne, reveal_eq_ok_iff, Sealing.open?_eq]
  split
  · simp only [reduceCtorEq, false_or, Option.some.injEq, ← Bytes.text?_eq_some_iff]
    exact Option.eq_none_iff_forall_ne_some.symm
  · simp

theorem length_data_close (key : PrivateKey) (salt : FixedBytes saltSize) (text : String) :
    (close key salt text).data.length = text.utf8ByteSize + 16 :=
  Sealing.length_close _ _ _

/-- A byte string reveals a text under a key and a salt if and only if it is what the text is sealed
to with them. Anything else is refused, and that is what is too short for a tag, what does not carry
the right tag, and what does not decrypt to a text. In the sealed form of a text the byte at each
position is the text's, changed by the key stream there, and the tag follows; so it is 16 bytes
longer than the text. -/
theorem reveal_undoes_close (key : PrivateKey) (salt : FixedBytes saltSize) (data : Bytes) :
    let derived := Hkdf.derive key.bytes.val salt.val (Bytes.ofText "deusvent-field-key") 32
    let encrypted := Sealing.encryptedPart data
    let value : SealedText := ⟨salt, data⟩
    (∀ text, value.reveal key = .ok text ↔ data = (close key salt text).data) ∧
    (value.reveal key = .error .invalidData ↔ ∀ text, data ≠ (close key salt text).data) ∧
    (value.reveal key = .error .invalidData ↔
      data.length < 16 ∨ Sealing.tagPart data ≠ Sealing.tag derived salt.val encrypted ∨
        Bytes.text? (ChaCha20.apply derived salt.val encrypted) = none) ∧
    ∀ text,
      (close key salt text).reveal key = .ok text ∧
      (close key salt text).data.length = text.utf8ByteSize + 16 ∧
      let changed := (Bytes.ofText text).mapIdx fun position byte =>
        byte ^^^ ChaCha20.streamByte derived salt.val position
      (close key salt text).data = changed ++
        Poly1305.tag ((ChaCha20.keyBlock derived salt.val 0).take 32)
          (Sealing.authenticated changed) := by
  intro derived encrypted value
  have reveals (text : String) : value.reveal key = .ok text ↔ data = (close key salt text).data :=
    reveal_eq_ok_iff.trans Sealing.open?_eq_some_iff
  have refused : value.reveal key = .error .invalidData ↔
      ∀ text, data ≠ (close key salt text).data :=
    reveal_eq_error_iff.trans (forall_congr' fun text => not_congr (reveals text))
  refine ⟨reveals, refused, refused_iff key value, fun text => ⟨?_, ?_, ?_⟩⟩
  · exact reveal_eq_ok_iff.mpr (Sealing.open?_eq_some_iff.mpr rfl)
  · exact length_data_close key salt text
  · rw [← ChaCha20.apply_eq_mapIdx]
    rfl

end SealedText

end Crypto

end Tether
