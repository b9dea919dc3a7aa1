import Tether.Bytes

/-! A reader is a program whose only way to look at its input is to take an announced number of
bytes. What a read uses up, also a failing one, is therefore settled once for all readers by
`Reader.run`: the bytes of the takes that succeeded, and nothing else. -/

namespace Tether.Wire

/-- Why bytes are not the encoding of the expected value. -/
inductive Malformed where
  /-- Fewer bytes are left than the named field needs. -/
  | truncated (what : String)
  /-- Bytes are left over after the last field. -/
  | trailing (count : Nat)
  /-- A truth value is neither 0 nor 1. -/
  | flagByte (byte : UInt8)
  /-- An optional value starts with neither 0 nor 1. -/
  | optionByte (byte : UInt8)
  /-- A protectable text starts with neither 0 nor 1. -/
  | safeTextByte (byte : UInt8)
  /-- The bytes of a text are not UTF-8. -/
  | notText
  /-- An unknown server status. -/
  | statusByte (byte : UInt8)
  /-- An unknown fault code. -/
  | faultCodeByte (byte : UInt8)
  deriving DecidableEq, Repr

def Malformed.message : Malformed → String
  | .truncated what => "truncated frame while reading " ++ what
  | .trailing count => toString count ++ " trailing bytes after payload"
  | .flagByte byte => "invalid bool byte " ++ toString byte.toNat
  | .optionByte byte => "invalid option discriminant " ++ toString byte.toNat
  | .safeTextByte byte => "invalid SafeString discriminant " ++ toString byte.toNat
  | .notText => "string is not valid utf-8"
  | .statusByte byte => "invalid status " ++ toString byte.toNat
  | .faultCodeByte byte => "invalid error code " ++ toString byte.toNat

/-- A program that reads a value by taking byte strings of announced lengths. -/
inductive Reader (α : Type) where
  /-- Nothing more to read. -/
  | done (value : α)
  /-- The bytes taken so far are not an encoding. -/
  | fail (cause : Malformed)
  /-- Take `count` bytes for the field `what` and go on with them. -/
  | take (count : Nat) (what : String) (next : FixedBytes count → Reader α)

namespace Reader

variable {α β : Type}

/-- Run a reader: its value or the first malformation, and the bytes it left unread.
A take that finds too few bytes uses up none of them. -/
def run : Reader α → Bytes → Except Malformed α × Bytes
  | .done value, input => (.ok value, input)
  | .fail cause, input => (.error cause, input)
  | .take count what next, input =>
    if short : input.length < count then (.error (.truncated what), input)
    else (next ⟨input.take count, by simp; omega⟩).run (input.drop count)

def bind : Reader α → (α → Reader β) → Reader β
  | .done value, rest => rest value
  | .fail cause, _ => .fail cause
  | .take count what next, rest => .take count what fun bytes => (next bytes).bind rest

instance : Monad Reader where
  pure := .done
  bind := Reader.bind

/-- Read a value that must use up the whole input. -/
def runAll (reader : Reader α) (input : Bytes) : Except Malformed α :=
  match reader.run input with
  | (.error cause, _) => .error cause
  | (.ok value, []) => .ok value
  | (.ok _, left) => .error (.trailing left.length)

/-- Take exactly `count` bytes. -/
def bytes (count : Nat) (what : String) : Reader (FixedBytes count) :=
  .take count what .done

/-- An unsigned number of `width` bytes, most significant byte first. -/
def number (width : Nat) (what : String) : Reader Nat :=
  .take width what fun digits => .done (Bytes.toNatBE digits.val)

@[simp] theorem pure_eq (value : α) : (pure value : Reader α) = .done value := rfl

@[simp] theorem bind_eq (reader : Reader α) (rest : α → Reader β) :
    (reader >>= rest) = reader.bind rest := rfl

theorem run_bind (reader : Reader α) (rest : α → Reader β) (input : Bytes) :
    (reader.bind rest).run input =
      match reader.run input with
      | (.ok value, left) => (rest value).run left
      | (.error cause, left) => (.error cause, left) := by
  induction reader generalizing input with
  | done value => rfl
  | fail cause => rfl
  | take count what next ih =>
    simp only [bind, run]
    split
    · rfl
    · exact ih _ _

end Reader

end Tether.Wire
