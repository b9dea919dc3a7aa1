import Tether.Bytes

namespace Tether.Text

/-- The hexadecimal digits of a byte, without a leading zero. -/
def shortHex (byte : UInt8) : String :=
  let low := [Bytes.hexDigit (byte.toNat % 16)]
  String.ofList (if byte.toNat < 16 then low else Bytes.hexDigit (byte.toNat / 16) :: low)

/-- Whether the character with this number is seen when printed. -/
def isVisible (byte : UInt8) : Bool :=
  let n := byte.toNat
  (0x20 ≤ n && n ≤ 0x7e) || (0xa1 ≤ n && n != 0xad)

/-- A byte as a quoted character. -/
def quoteByte (byte : UInt8) : String :=
  let inner :=
    if byte = 0 then "\\0"
    else if byte = 9 then "\\t"
    else if byte = 10 then "\\n"
    else if byte = 13 then "\\r"
    else if byte = 39 then "\\'"
    else if byte = 92 then "\\\\"
    else if isVisible byte then String.singleton (Char.ofNat byte.toNat)
    else "\\u\x7b" ++ shortHex byte ++ "\x7d"
  "'" ++ inner ++ "'"

end Tether.Text
