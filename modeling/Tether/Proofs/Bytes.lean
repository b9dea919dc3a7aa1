import Mathlib.Algebra.Order.Ring.Nat
import Mathlib.Data.List.Induction
import Tether.Bytes

namespace Tether.Bytes

theorem toNatBE_concat (bytes : Bytes) (byte : UInt8) :
    toNatBE (bytes ++ [byte]) = toNatBE bytes * 256 + byte.toNat := by
  simp [toNatBE]

theorem toNatBE_lt (bytes : Bytes) : toNatBE bytes < 256 ^ bytes.length := by
  induction bytes using List.reverseRecOn with
  | nil => exact Nat.one_pos
  | append_singleton bytes byte ih =>
    have digit := byte.toNat_lt
    rw [toNatBE_concat, List.length_append, List.length_singleton, Nat.pow_succ]
    omega

/-- Bytes are what is written for the number that they are read as, leading zeros included. -/
theorem bigEndian_toNatBE (bytes : Bytes) : bigEndian bytes.length (toNatBE bytes) = bytes := by
  induction bytes using List.reverseRecOn with
  | nil => rfl
  | append_singleton bytes byte ih =>
    have digit := byte.toNat_lt
    have high : (toNatBE bytes * 256 + byte.toNat) / 256 = toNatBE bytes := by omega
    have low : UInt8.ofNat (toNatBE bytes * 256 + byte.toNat) = byte := by
      apply UInt8.toNat_inj.mp
      rw [UInt8.toNat_ofNat']
      omega
    rw [toNatBE_concat, List.length_append, List.length_singleton, bigEndian, high, low, ih]

theorem toNatBE_bigEndian {width n : Nat} (fits : n < 256 ^ width) :
    toNatBE (bigEndian width n) = n := by
  induction width generalizing n with
  | zero => exact (Nat.lt_one_iff.mp fits).symm
  | succ width ih =>
    have higher : n / 256 < 256 ^ width := by
      rw [Nat.pow_succ] at fits
      omega
    rw [bigEndian, toNatBE_concat, ih higher, UInt8.toNat_ofNat']
    omega

theorem text?_eq_some_iff {bytes : Bytes} {text : String} :
    text? bytes = some text ↔ bytes = ofText text := by
  constructor
  · intro decoded
    simp only [text?, String.fromUTF8?] at decoded
    split at decoded
    · cases decoded
      rfl
    · cases decoded
  · rintro rfl
    have valid : (⟨(ofText text).toArray⟩ : ByteArray) = text.toByteArray := by
      simp [ofText, String.toUTF8]
    simp only [text?, String.fromUTF8?, valid, text.isValidUTF8]
    rfl

theorem ofText_ofList (chars : List Char) :
    ofText (String.ofList chars) = chars.flatMap String.utf8EncodeChar := by
  simp [ofText, String.toUTF8, String.ofList, List.utf8Encode]

theorem ofText_injective : Function.Injective ofText := by
  intro one other same
  have first := text?_eq_some_iff.mpr (rfl : ofText one = ofText one)
  have second := text?_eq_some_iff.mpr same
  exact Option.some.inj (first.symm.trans second)

theorem ofText_eq_flatMap (text : String) :
    ofText text = text.toList.flatMap String.utf8EncodeChar := by
  rw [← ofText_ofList, String.ofList_toList]

/-- Encodings of characters are told apart by what they begin with. -/
theorem utf8EncodeChar_append_inj {one other : Char} {left right : Bytes}
    (same : String.utf8EncodeChar one ++ left = String.utf8EncodeChar other ++ right) :
    one = other ∧ left = right := by
  have decoded (c : Char) (rest : Bytes) :
      ((String.utf8EncodeChar c ++ rest).toByteArray).utf8DecodeChar? 0 = some c := by
    rw [List.toByteArray_append]
    exact ByteArray.utf8DecodeChar?_utf8EncodeChar_append
  have first := decoded one left
  rw [same, decoded other right] at first
  cases first
  exact ⟨rfl, List.append_cancel_left same⟩

/-- A text begins with another, character by character, if and only if its bytes do. -/
theorem ofText_prefix_iff {start text : String} :
    ofText start <+: ofText text ↔ start.toList <+: text.toList := by
  rw [ofText_eq_flatMap, ofText_eq_flatMap]
  constructor
  · intro bytes
    generalize start.toList = front at bytes ⊢
    generalize text.toList = whole at bytes ⊢
    induction front generalizing whole with
    | nil => exact List.nil_prefix
    | cons c front ih =>
      obtain ⟨rest, same⟩ := bytes
      rw [List.flatMap_cons, List.append_assoc] at same
      cases whole with
      | nil => exact absurd (List.append_eq_nil_iff.mp same).1 String.utf8EncodeChar_ne_nil
      | cons d whole =>
        rw [List.flatMap_cons] at same
        obtain ⟨rfl, behind⟩ := utf8EncodeChar_append_inj same
        exact (List.prefix_cons_inj c).mpr (ih whole ⟨rest, behind⟩)
  · rintro ⟨rest, whole⟩
    rw [← whole, List.flatMap_append]
    exact List.prefix_append ..

theorem prefix_of_between {start one other : Bytes} (lower : start ≤ one) (upper : one < other)
    (begins : start <+: other) : start <+: one := by
  induction start generalizing one other with
  | nil => exact List.nil_prefix
  | cons byte start ih =>
    obtain ⟨rest, rfl⟩ := begins
    cases one with
    | nil => exact absurd (List.nil_lt_cons byte start) (List.not_lt.mpr lower)
    | cons first one =>
      rw [List.cons_append, List.cons_lt_cons_iff] at upper
      rcases upper with less | ⟨rfl, upper⟩
      · exact absurd (List.cons_lt_cons_iff.mpr (Or.inl less)) (List.not_lt.mpr lower)
      · rw [List.prefix_cons_inj]
        refine ih ?_ upper (List.prefix_append ..)
        rw [← List.not_lt] at lower ⊢
        exact fun less => lower (List.cons_lt_cons_iff.mpr (Or.inr ⟨rfl, less⟩))

private theorem hexValue?_hexDigit : ∀ n < 16,
    String.utf8EncodeChar (hexDigit n) = [UInt8.ofNat (hexDigit n).toNat] ∧
      hexValue? (UInt8.ofNat (hexDigit n).toNat) = some n := by
  decide

private theorem hexPairs_toHex (bytes : Bytes) (position : Nat) :
    hexPairs position ((bytes.flatMap fun byte =>
        [hexDigit (byte.toNat / 16), hexDigit (byte.toNat % 16)]).flatMap String.utf8EncodeChar) =
      .ok bytes := by
  induction bytes generalizing position with
  | nil => rfl
  | cons byte bytes ih =>
    have small := byte.toNat_lt
    obtain ⟨high, highValue⟩ := hexValue?_hexDigit (byte.toNat / 16) (by omega)
    obtain ⟨low, lowValue⟩ := hexValue?_hexDigit (byte.toNat % 16) (by omega)
    have whole : 16 * (byte.toNat / 16) + byte.toNat % 16 = byte.toNat := by omega
    simp only [List.flatMap_cons, List.cons_append, List.nil_append, high, low, hexPairs, highValue,
      lowValue, ih, whole, UInt8.ofNat_toNat, Except.map]

theorem ofHex_toHex (bytes : Bytes) : ofHex (ofText (toHex bytes)) = .ok bytes := by
  have pairs (byte : UInt8) :
      ([hexDigit (byte.toNat / 16), hexDigit (byte.toNat % 16)].flatMap
        String.utf8EncodeChar).length = 2 := by
    have small := byte.toNat_lt
    rw [List.flatMap_cons, List.flatMap_cons, (hexValue?_hexDigit _ (by omega)).1,
      (hexValue?_hexDigit _ (by omega)).1]
    rfl
  have even : (ofText (toHex bytes)).length = bytes.length * 2 := by
    rw [toHex, ofText_ofList, List.flatMap_assoc]
    exact length_flatMap_uniform bytes _ pairs
  rw [ofHex, even, if_neg (by omega), toHex, ofText_ofList]
  exact hexPairs_toHex bytes 0

def IsHexDigit (c : Char) : Prop :=
  ('0' ≤ c ∧ c ≤ '9') ∨ ('a' ≤ c ∧ c ≤ 'f') ∨ ('A' ≤ c ∧ c ≤ 'F')

instance : DecidablePred IsHexDigit := fun _ => inferInstanceAs (Decidable (_ ∨ _))

theorem hexValue?_isSome_iff {byte : UInt8} :
    (hexValue? byte).isSome ↔ (48 ≤ byte.toNat ∧ byte.toNat ≤ 57) ∨
      (97 ≤ byte.toNat ∧ byte.toNat ≤ 102) ∨ (65 ≤ byte.toNat ∧ byte.toNat ≤ 70) := by
  simp only [hexValue?]
  split
  · simp [*]
  · split
    · simp [*]
    · split <;> simp [*]

theorem hexPairs_ok_iff {position count : Nat} {digits : Bytes} :
    (∃ bytes : Bytes, bytes.length = count ∧ hexPairs position digits = .ok bytes) ↔
      digits.length = 2 * count ∧ ∀ digit ∈ digits, (hexValue? digit).isSome := by
  fun_induction hexPairs position digits generalizing count with
  | case1 position high low rest noDigit =>
    simp [noDigit]
  | case2 position high low rest h noDigit highValue =>
    simp [noDigit]
  | case3 position high low rest h l lowValue highValue ih =>
    constructor
    · rintro ⟨bytes, rfl, read⟩
      cases tail : hexPairs (position + 2) rest with
      | error cause =>
        rw [tail] at read
        cases read
      | ok bytes =>
        rw [tail] at read
        cases read
        obtain ⟨length, digits⟩ := ih.mp ⟨bytes, rfl, tail⟩
        refine ⟨by simp only [List.length_cons, length]; omega, ?_⟩
        simpa [lowValue, highValue] using digits
    · rintro ⟨length, digits⟩
      obtain ⟨fewer, rfl⟩ : ∃ fewer, count = fewer + 1 :=
        ⟨count - 1, by simp only [List.length_cons] at length; omega⟩
      simp only [List.forall_mem_cons] at digits
      have shorter : rest.length = 2 * fewer := by
        simp only [List.length_cons] at length
        omega
      obtain ⟨bytes, rfl, tail⟩ := ih.mpr ⟨shorter, digits.2.2⟩
      exact ⟨_, List.length_cons, by rw [tail]; rfl⟩
  | case4 position digit =>
    constructor
    · rintro ⟨bytes, -, read⟩
      cases read
    · rintro ⟨length, -⟩
      rw [List.length_singleton] at length
      omega
  | case5 position =>
    constructor
    · rintro ⟨bytes, rfl, read⟩
      cases read
      simp
    · rintro ⟨length, -⟩
      refine ⟨[], ?_, rfl⟩
      simp only [List.length_nil] at length ⊢
      omega

/-- The hexadecimal spellings of so many bytes are twice as many digits. -/
theorem ofHex_ok_iff {count : Nat} {digits : Bytes} :
    (∃ bytes : Bytes, bytes.length = count ∧ ofHex digits = .ok bytes) ↔
      digits.length = 2 * count ∧ ∀ digit ∈ digits, (hexValue? digit).isSome := by
  rw [ofHex]
  split
  · rename_i odd
    have alone : digits.length ≠ 2 * count := by omega
    simp [alone]
  · exact hexPairs_ok_iff

theorem isHexDigit_iff {c : Char} :
    IsHexDigit c ↔ (48 ≤ c.toNat ∧ c.toNat ≤ 57) ∨ (97 ≤ c.toNat ∧ c.toNat ≤ 102) ∨
      (65 ≤ c.toNat ∧ c.toNat ≤ 70) :=
  Iff.rfl

theorem utf8EncodeChar_of_ascii {c : Char} (ascii : c.toNat ≤ 127) :
    String.utf8EncodeChar c = [UInt8.ofNat c.toNat] := by
  rw [String.utf8EncodeChar.eq_1]
  exact if_pos ascii

theorem high_mem_utf8EncodeChar {c : Char} (wide : 127 < c.toNat) :
    UInt8.ofNat (c.toNat % 64 + 128) ∈ String.utf8EncodeChar c := by
  have notAscii : ¬c.val.toNat ≤ 127 := Nat.not_le.mpr wide
  rw [String.utf8EncodeChar.eq_1, if_neg notAscii]
  split
  · exact List.mem_cons_of_mem _ List.mem_cons_self
  · split
    · exact List.mem_cons_of_mem _ (List.mem_cons_of_mem _ List.mem_cons_self)
    · exact List.mem_cons_of_mem _ (List.mem_cons_of_mem _ (List.mem_cons_of_mem _ List.mem_cons_self))

theorem utf8EncodeChar_digits_iff {c : Char} :
    (∀ byte ∈ String.utf8EncodeChar c, (hexValue? byte).isSome) ↔ IsHexDigit c := by
  by_cases ascii : c.toNat ≤ 127
  · have small : (UInt8.ofNat c.toNat).toNat = c.toNat := UInt8.toNat_ofNat_of_lt' (by
      simp only [UInt8.size]
      omega)
    rw [utf8EncodeChar_of_ascii ascii, List.forall_mem_singleton, hexValue?_isSome_iff, small,
      isHexDigit_iff]
  · have noDigit : ¬IsHexDigit c := by
      rw [isHexDigit_iff]
      omega
    refine iff_of_false (fun digits => ?_) noDigit
    have high := hexValue?_isSome_iff.mp (digits _ (high_mem_utf8EncodeChar (by omega)))
    rw [UInt8.toNat_ofNat'] at high
    omega

theorem length_utf8EncodeChar_of_digit {c : Char} (digit : IsHexDigit c) :
    (String.utf8EncodeChar c).length = 1 := by
  have ascii : c.toNat ≤ 127 := by
    rw [isHexDigit_iff] at digit
    omega
  rw [utf8EncodeChar_of_ascii ascii, List.length_singleton]

theorem ofText_digits_iff {count : Nat} {text : String} :
    ((ofText text).length = count ∧ ∀ byte ∈ ofText text, (hexValue? byte).isSome) ↔
      text.toList.length = count ∧ ∀ c ∈ text.toList, IsHexDigit c := by
  have digits : (∀ byte ∈ ofText text, (hexValue? byte).isSome) ↔
      ∀ c ∈ text.toList, IsHexDigit c := by
    simp only [ofText_eq_flatMap, List.forall_mem_flatMap, utf8EncodeChar_digits_iff]
  rw [digits]
  refine and_congr_left fun allDigits => ?_
  have ones : text.toList.map (fun c => (String.utf8EncodeChar c).length) =
      text.toList.map fun _ => 1 :=
    List.map_congr_left fun c member => length_utf8EncodeChar_of_digit (allDigits c member)
  rw [ofText_eq_flatMap, List.length_flatMap, ones, List.map_const', List.sum_replicate_nat,
    Nat.mul_one]

end Tether.Bytes
