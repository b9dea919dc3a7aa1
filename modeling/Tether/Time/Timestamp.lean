import Tether.Wire.Codec

namespace Tether.Time

inductive NumberError where
  | empty
  | invalidDigit
  | overflow
  deriving DecidableEq, Repr

def NumberError.name : NumberError → String
  | .empty => "Empty"
  | .invalidDigit => "InvalidDigit"
  | .overflow => "PosOverflow"

def NumberError.message : NumberError → String
  | .empty => "cannot parse integer from empty string"
  | .invalidDigit => "invalid digit found in string"
  | .overflow => "number too large to fit in target type"

/-- Read decimal digits onto `total`. At each character a missing digit is reported before a
number that no longer fits. -/
def readDigits (total : Nat) : List Char → Except NumberError Nat
  | [] => .ok total
  | digit :: rest =>
    if ¬ ('0' ≤ digit ∧ digit ≤ '9') then .error .invalidDigit
    else
      let next := total * 10 + (digit.toNat - '0'.toNat)
      if next < UInt64.size then readDigits next rest else .error .overflow

/-- The number a text spells: digits after at most one plus sign. -/
def readNumber (text : String) : Except NumberError UInt64 :=
  match text.toList with
  | [] => .error .empty
  | ['+'] => .error .invalidDigit
  | '+' :: digits => UInt64.ofNat <$> readDigits 0 digits
  | digits => UInt64.ofNat <$> readDigits 0 digits

structure Duration where
  millis : UInt64
  deriving DecidableEq, Repr, Inhabited

namespace Duration

/-- The length of so many seconds, or the longest length if that is too long. -/
def ofSeconds (seconds : UInt64) : Duration :=
  ⟨UInt64.ofNat (min (seconds.toNat * 1000) (UInt64.size - 1))⟩

def seconds (length : Duration) : Nat := length.millis.toNat / 1000

def minutes (length : Duration) : Nat := length.seconds / 60

def hours (length : Duration) : Nat := length.minutes / 60

def days (length : Duration) : Nat := length.hours / 24

/-- At least two decimal digits. -/
def twoDigits (n : Nat) : String := if n < 10 then "0" ++ toString n else toString n

/-- Hours, minutes and seconds between colons; the hours are not cut at a day. -/
def text (length : Duration) : String :=
  twoDigits length.hours ++ ":" ++ twoDigits (length.minutes % 60) ++ ":" ++
    twoDigits (length.seconds % 60)

def codec : Wire.Codec Duration := Wire.Codec.u64.wrap Duration.mk Duration.millis

end Duration

/-- A moment on the local clock, in milliseconds since 1970. -/
structure Timestamp where
  millis : UInt64
  deriving DecidableEq, Repr, Inhabited

namespace Timestamp

def distance (left right : Timestamp) : Duration :=
  ⟨if left.millis ≤ right.millis then right.millis - left.millis else left.millis - right.millis⟩

/-- The moment so many milliseconds later, kept within the range of the clock. -/
def shift (moment : Timestamp) (millis : Int) : Timestamp :=
  ⟨UInt64.ofNat (min (moment.millis.toNat + millis).toNat (UInt64.size - 1))⟩

def text (moment : Timestamp) : String := toString moment.millis.toNat

/-- The moment a text of digits names. -/
def ofText (text : String) : Except NumberError Timestamp := Timestamp.mk <$> readNumber text

def codec : Wire.Codec Timestamp := Wire.Codec.u64.wrap Timestamp.mk Timestamp.millis

end Timestamp

/-- A moment on the server's clock, in milliseconds since 1970. -/
structure ServerTimestamp where
  millis : UInt64
  deriving DecidableEq, Repr, Inhabited

namespace ServerTimestamp

def text (moment : ServerTimestamp) : String := toString moment.millis.toNat

def ofText (text : String) : Except NumberError ServerTimestamp :=
  ServerTimestamp.mk <$> readNumber text

def codec : Wire.Codec ServerTimestamp :=
  Wire.Codec.u64.wrap ServerTimestamp.mk ServerTimestamp.millis

end ServerTimestamp

end Tether.Time
