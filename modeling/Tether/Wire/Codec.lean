import Tether.Wire.Reader

namespace Tether.Wire

/-- The two directions of one wire format. -/
structure Codec (α : Type) where
  /-- The encoding of a value. -/
  write : α → Bytes
  /-- Read an encoding back. -/
  read : Reader α

namespace Codec

variable {α β : Type}

/-- The format of a type that wraps another one. -/
def wrap (codec : Codec α) (into : α → β) (out : β → α) : Codec β where
  write value := codec.write (out value)
  read := do return into (← codec.read)

def unit (value : α) : Codec α where
  write _ := []
  read := .done value

def u8 : Codec UInt8 where
  write value := Bytes.bigEndian 1 value.toNat
  read := do return UInt8.ofNat (← Reader.number 1 "u8")

def u16 : Codec UInt16 where
  write value := Bytes.bigEndian 2 value.toNat
  read := do return UInt16.ofNat (← Reader.number 2 "u16")

def u32 : Codec UInt32 where
  write value := Bytes.bigEndian 4 value.toNat
  read := do return UInt32.ofNat (← Reader.number 4 "u32")

def u64 : Codec UInt64 where
  write value := Bytes.bigEndian 8 value.toNat
  read := do return UInt64.ofNat (← Reader.number 8 "u64")

/-- A truth value is one byte, 0 or 1. -/
def flag : Codec Bool where
  write value := u8.write (if value then 1 else 0)
  read := do
    match ← u8.read with
    | 0 => return false
    | 1 => return true
    | byte => .fail (.flagByte byte)

/-- Bytes after their number, which is kept modulo 2^32. -/
def sized (what : String) : Codec Bytes where
  write bytes := u32.write (UInt32.ofNat bytes.length) ++ bytes
  read := do
    let length ← u32.read
    return (← Reader.bytes length.toNat what).val

/-- A text is its UTF-8 encoding after the number of bytes in it. -/
def text : Codec String where
  write value := (sized "string").write (Bytes.ofText value)
  read := do
    match Bytes.text? (← (sized "string").read) with
    | some value => return value
    | none => .fail .notText

/-- An absent value is the byte 0; a present one follows the byte 1. -/
def option (codec : Codec α) : Codec (Option α) where
  write
    | none => u8.write 0
    | some value => u8.write 1 ++ codec.write value
  read := do
    match ← u8.read with
    | 0 => return none
    | 1 => return some (← codec.read)
    | byte => .fail (.optionByte byte)

end Codec

end Tether.Wire
