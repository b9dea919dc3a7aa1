namespace Tether

abbrev Bytes := List UInt8

/-- A byte string of a known length. -/
abbrev FixedBytes (length : Nat) := { bytes : Bytes // bytes.length = length }

namespace Bytes

/-- The low `width` bytes of a number, most significant byte first. -/
def bigEndian : (width : Nat) → Nat → Bytes
  | 0, _ => []
  | width + 1, n => bigEndian width (n / 256) ++ [UInt8.ofNat n]

/-- The number whose base-256 digits are the bytes, most significant first. -/
def toNatBE (bytes : Bytes) : Nat :=
  bytes.foldl (fun total byte => total * 256 + byte.toNat) 0

/-- The low `width` bytes of a number, least significant byte first. -/
def littleEndian : (width : Nat) → Nat → Bytes
  | 0, _ => []
  | width + 1, n => UInt8.ofNat n :: littleEndian width (n / 256)

/-- The number whose base-256 digits are the bytes, least significant first. -/
def toNatLE : Bytes → Nat
  | [] => 0
  | byte :: rest => byte.toNat + 256 * toNatLE rest

@[simp] theorem length_bigEndian (width n : Nat) : (bigEndian width n).length = width := by
  induction width generalizing n with
  | zero => rfl
  | succ width ih => simp [bigEndian, ih]

@[simp] theorem length_littleEndian (width n : Nat) : (littleEndian width n).length = width := by
  induction width generalizing n with
  | zero => rfl
  | succ width ih => simp [littleEndian, ih]

/-- Split into consecutive blocks of `size` bytes; the last block may be shorter. There are no
blocks without bytes. -/
def blocks (size : Nat) (bytes : Bytes) : List Bytes :=
  match size, bytes with
  | 0, _ => []
  | _, [] => []
  | size + 1, byte :: rest => (byte :: rest.take size) :: blocks (size + 1) (rest.drop size)
termination_by bytes.length
decreasing_by simp only [List.length_cons, List.length_drop]; omega

theorem length_flatMap_uniform {α : Type} {size : Nat} (items : List α) (piece : α → Bytes)
    (uniform : ∀ item, (piece item).length = size) :
    (items.flatMap piece).length = items.length * size := by
  induction items with
  | nil => simp
  | cons item rest ih => simp [ih, uniform, Nat.succ_mul]; omega

def xor (left right : Bytes) : Bytes :=
  List.zipWith (· ^^^ ·) left right

/-- The UTF-8 encoding of a text. -/
def ofText (text : String) : Bytes := text.toUTF8.data.toList

/-- The text that the bytes encode, if they are valid UTF-8. -/
def text? (bytes : Bytes) : Option String := String.fromUTF8? ⟨bytes.toArray⟩

/-- Why a text is not the hexadecimal spelling of a byte string. -/
inductive HexError where
  /-- The text has an odd number of bytes. -/
  | oddLength
  /-- The byte at this position is no hexadecimal digit. -/
  | badDigit (byte : UInt8) (position : Nat)
  deriving DecidableEq, Repr

def hexDigit (n : Nat) : Char :=
  if n < 10 then Char.ofNat (48 + n) else Char.ofNat (87 + n)

/-- Two lower-case hexadecimal digits per byte. -/
def toHex (bytes : Bytes) : String :=
  String.ofList (bytes.flatMap fun byte => [hexDigit (byte.toNat / 16), hexDigit (byte.toNat % 16)])

def hexValue? (byte : UInt8) : Option Nat :=
  let n := byte.toNat
  if 48 ≤ n ∧ n ≤ 57 then some (n - 48)
  else if 97 ≤ n ∧ n ≤ 102 then some (n - 87)
  else if 65 ≤ n ∧ n ≤ 70 then some (n - 55)
  else none

/-- Read digit pairs; `position` counts the digits already read. -/
def hexPairs (position : Nat) : Bytes → Except HexError Bytes
  | high :: low :: rest =>
    match hexValue? high, hexValue? low with
    | none, _ => .error (.badDigit high position)
    | some _, none => .error (.badDigit low (position + 1))
    | some h, some l => (hexPairs (position + 2) rest).map (UInt8.ofNat (16 * h + l) :: ·)
  | [_] => .error .oddLength
  | [] => .ok []

/-- The bytes spelled by an ASCII hexadecimal text. An odd length is reported before any digit. -/
def ofHex (digits : Bytes) : Except HexError Bytes :=
  if digits.length % 2 = 1 then .error .oddLength else hexPairs 0 digits

end Bytes

end Tether
