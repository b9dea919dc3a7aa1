import Tether.Proofs.Wire.Codec

/-! The operations that get at bytes look after nothing: a number that is got from too few bytes, a
split behind the end and a copy to a place of another size each break a program off. A scan is a
program on a cursor that is made of such operations and of the checks before them. Each scan is
compared here with the reader of its format. It never breaks off, it comes to the same value or
malformation, and the bytes it used up are those that the single reads on its way got. -/

namespace Tether.Wire

/-- What breaks a program off. -/
inductive Breach where
  /-- A number was got from fewer bytes than it has. -/
  | underflow
  /-- Bytes were split behind their end. -/
  | splitPastEnd
  /-- Bytes were copied to where another number of bytes belongs. -/
  | unequalLengths
  deriving DecidableEq, Repr

/-- What a single read got. -/
inductive Grasp where
  | number (width value : Nat)
  | bytes (taken : Bytes)
  deriving DecidableEq, Repr

def Grasp.used : Grasp → Bytes
  | .number width value => Bytes.bigEndian width value
  | .bytes taken => taken

/-- Bytes that are being read. -/
structure Cursor where
  unread : Bytes
  /-- What the single reads that succeeded have got, in order. No scan looks at it. -/
  grasped : List Grasp
  deriving DecidableEq, Repr

/-- A program on a cursor. It breaks off, or it comes to a value or a failure and leaves the cursor
somewhere. -/
abbrev Scan (ε α : Type) : Type := ExceptT ε (StateT Cursor (Except Breach)) α

namespace Scan

variable {ε δ α β : Type}

/-- Split off bytes at the front. -/
def splitOff (count : Nat) : Scan ε Bytes := fun cursor =>
  if count ≤ cursor.unread.length then
    .ok (.ok (cursor.unread.take count), { cursor with unread := cursor.unread.drop count })
  else .error .splitPastEnd

def getNumber (width : Nat) : Scan ε Nat := fun cursor =>
  if width ≤ cursor.unread.length then
    .ok (.ok (Bytes.toNatBE (cursor.unread.take width)),
      { cursor with unread := cursor.unread.drop width })
  else .error .underflow

/-- Copy bytes to where so many belong. -/
def copy (count : Nat) (bytes : Bytes) : Scan ε (FixedBytes count) := fun cursor =>
  if same : bytes.length = count then .ok (.ok ⟨bytes, same⟩, cursor) else .error .unequalLengths

/-- What is not read yet. -/
def unread : Scan ε Bytes := fun cursor => .ok (.ok cursor.unread, cursor)

/-- Put on record what a single read got. -/
def note (grasp : Grasp) : Scan ε Unit := fun cursor =>
  .ok (.ok (), { cursor with grasped := cursor.grasped ++ [grasp] })

/-- A scan whose failures have another name. -/
def mapError (scan : Scan ε α) (rename : ε → δ) : Scan δ α := ExceptT.adapt rename scan

/-- Check that so many bytes are left. -/
def need (count : Nat) (what : String) : Scan Malformed Unit := do
  if (← unread).length < count then throw (.truncated what)

def number (width : Nat) (what : String) : Scan Malformed Nat := do
  need width what
  let value ← getNumber width
  note (.number width value)
  return value

def take (count : Nat) (what : String) : Scan Malformed Bytes := do
  need count what
  let bytes ← splitOff count
  note (.bytes bytes)
  return bytes

/-- So many bytes, kept with their number. -/
def takeArray (count : Nat) (what : String) : Scan Malformed (FixedBytes count) := do
  let bytes ← take count what
  copy count bytes

/-- From a cursor a scan comes to this result and leaves these bytes. It does not break off, and what
it used up is what the single reads on its way got. -/
def Leads (scan : Scan ε α) (cursor : Cursor) (result : Except ε α) (left : Bytes) : Prop :=
  ∃ grasped, scan cursor = .ok (result, ⟨left, cursor.grasped ++ grasped⟩) ∧
    cursor.unread = grasped.flatMap Grasp.used ++ left

/-- The scan does what the reader does, wherever it starts. -/
def Follows (scan : Scan Malformed α) (reader : Reader α) : Prop :=
  ∀ cursor, scan.Leads cursor (reader.run cursor.unread).1 (reader.run cursor.unread).2

variable {cursor : Cursor} {scan : Scan ε α} {left : Bytes}

theorem leads_pure (value : α) : (pure value : Scan ε α).Leads cursor (.ok value) cursor.unread :=
  ⟨[], by rw [List.append_nil]; rfl, rfl⟩

theorem leads_throw (cause : ε) :
    (throw cause : Scan ε α).Leads cursor (.error cause) cursor.unread :=
  ⟨[], by rw [List.append_nil]; rfl, rfl⟩

theorem bind_of_ok {rest : α → Scan ε β} {value : α} {next : Cursor}
    (ran : scan cursor = .ok (.ok value, next)) : (scan >>= rest) cursor = rest value next := by
  simp only [bind, ExceptT.bind, ExceptT.mk, StateT.bind, ran, Except.bind, ExceptT.bindCont]

theorem bind_of_error {rest : α → Scan ε β} {cause : ε} {next : Cursor}
    (ran : scan cursor = .ok (.error cause, next)) :
    (scan >>= rest) cursor = .ok (.error cause, next) := by
  simp only [bind, ExceptT.bind, ExceptT.mk, StateT.bind, ran, Except.bind, ExceptT.bindCont]
  rfl

theorem unread_bind (rest : Bytes → Scan ε β) :
    (unread >>= rest) cursor = rest cursor.unread cursor :=
  bind_of_ok rfl

theorem leads_unread_bind {rest : Bytes → Scan ε β} {result : Except ε β} :
    (unread >>= rest).Leads cursor result left ↔ (rest cursor.unread).Leads cursor result left := by
  rw [Leads, Leads, unread_bind]

theorem Leads.bind_ok {rest : α → Scan ε β} {value : α}
    (first : scan.Leads cursor (.ok value) left) :
    ∃ grasped, ∀ {last : Except ε β} {behind : Bytes},
      (rest value).Leads ⟨left, grasped⟩ last behind → (scan >>= rest).Leads cursor last behind := by
  obtain ⟨grasped, ran, used⟩ := first
  refine ⟨cursor.grasped ++ grasped, ?_⟩
  rintro last behind ⟨more, ranOn, usedOn⟩
  refine ⟨grasped ++ more, ?_, ?_⟩
  · rw [bind_of_ok ran, ranOn, List.append_assoc]
  · rw [used, List.flatMap_append, List.append_assoc, ← usedOn]

theorem Leads.bind_error {rest : α → Scan ε β} {cause : ε}
    (first : scan.Leads cursor (.error cause) left) :
    (scan >>= rest).Leads cursor (.error cause) left := by
  obtain ⟨grasped, ran, used⟩ := first
  exact ⟨grasped, bind_of_error ran, used⟩

theorem Leads.mapError {result : Except ε α} (leads : scan.Leads cursor result left)
    (rename : ε → δ) : (scan.mapError rename).Leads cursor (result.mapError rename) left := by
  obtain ⟨grasped, ran, used⟩ := leads
  refine ⟨grasped, ?_, used⟩
  change (do
    let reached ← scan cursor
    return (reached.1.mapError rename, reached.2) : Except Breach _) = _
  rw [ran]
  rfl

theorem follows_pure (value : α) : (pure value : Scan Malformed α).Follows (.done value) :=
  fun _ => leads_pure value

theorem follows_throw (cause : Malformed) :
    (throw cause : Scan Malformed α).Follows (.fail cause) :=
  fun _ => leads_throw cause

/-- A composite scan follows a composite reader part by part. -/
theorem Follows.bind {first : Scan Malformed α} {reader : Reader α} {rest : α → Scan Malformed β}
    {later : α → Reader β} (follows : first.Follows reader)
    (onward : ∀ value, (rest value).Follows (later value)) :
    (first >>= rest).Follows (reader.bind later) := by
  intro cursor
  have leads := follows cursor
  rw [Reader.run_bind]
  rcases ran : reader.run cursor.unread with ⟨cause | value, left⟩
  · rw [ran] at leads
    exact leads.bind_error
  · rw [ran] at leads
    obtain ⟨grasped, further⟩ := leads.bind_ok
    exact further (onward value ⟨left, grasped⟩)

theorem need_of_le {count : Nat} (what : String) (enough : count ≤ cursor.unread.length) :
    need count what cursor = .ok (.ok (), cursor) := by
  rw [need, unread_bind, if_neg (Nat.not_lt.mpr enough)]
  rfl

theorem leads_need {count : Nat} (what : String) (short : cursor.unread.length < count) :
    (need count what).Leads cursor (.error (.truncated what)) cursor.unread := by
  rw [need, leads_unread_bind, if_pos short]
  exact leads_throw _

/-- An operation that is used on enough bytes only, and whose bytes are noted, follows a take. -/
theorem follows_take {count : Nat} {what : String} {operation : Scan Malformed α}
    (value : FixedBytes count → α) (grasp : α → Grasp)
    (gets : ∀ (cursor : Cursor) (enough : count ≤ cursor.unread.length),
      operation cursor = .ok (.ok (value ⟨cursor.unread.take count, List.length_take_of_le enough⟩),
        { cursor with unread := cursor.unread.drop count }))
    (uses : ∀ taken, (grasp (value taken)).used = taken.val) :
    (do
      need count what
      let value ← operation
      note (grasp value)
      return value : Scan Malformed α).Follows (.take count what fun taken => .done (value taken)) := by
  intro cursor
  rw [Reader.run]
  split
  · rename_i short
    exact (leads_need what short).bind_error
  · rename_i long
    have enough : count ≤ cursor.unread.length := Nat.le_of_not_lt long
    refine ⟨[grasp (value ⟨_, List.length_take_of_le enough⟩)], ?_, ?_⟩
    · rw [bind_of_ok (need_of_le what enough), bind_of_ok (gets cursor enough)]
      rfl
    · rw [List.flatMap_singleton, uses]
      exact (List.take_append_drop count cursor.unread).symm

theorem follows_number (width : Nat) (what : String) :
    (number width what).Follows (Reader.number width what) := by
  refine follows_take (fun digits => Bytes.toNatBE digits.val) (.number width) ?_ ?_
  · intro cursor enough
    exact if_pos enough
  · rintro ⟨digits, rfl⟩
    exact Bytes.bigEndian_toNatBE digits

theorem follows_bytes (count : Nat) (what : String) :
    (take count what).Follows ((Reader.bytes count what).bind fun taken => .done taken.val) := by
  refine follows_take Subtype.val .bytes ?_ ?_
  · intro cursor enough
    exact if_pos enough
  · intro taken
    rfl

theorem follows_takeArray (count : Nat) (what : String) :
    (takeArray count what).Follows (Reader.bytes count what) := by
  intro cursor
  have leads := follows_bytes count what cursor
  rw [Reader.run_bind] at leads
  rw [Reader.bytes, Reader.run]
  split
  · rename_i short
    exact (leads_need what short).bind_error.bind_error
  · rename_i long
    have ran : (Reader.bytes count what).run cursor.unread =
        (.ok ⟨cursor.unread.take count, List.length_take_of_le (Nat.le_of_not_lt long)⟩,
          cursor.unread.drop count) :=
      dif_neg long
    rw [ran] at leads
    obtain ⟨grasped, further⟩ := leads.bind_ok
    refine further ⟨[], ?_, rfl⟩
    rw [List.append_nil]
    exact dif_pos (List.length_take_of_le (Nat.le_of_not_lt long))

def u8 : Scan Malformed UInt8 := do return UInt8.ofNat (← number 1 "u8")

def u16 : Scan Malformed UInt16 := do return UInt16.ofNat (← number 2 "u16")

def u32 : Scan Malformed UInt32 := do return UInt32.ofNat (← number 4 "u32")

def u64 : Scan Malformed UInt64 := do return UInt64.ofNat (← number 8 "u64")

/-- A byte that is 0 or 1. -/
def flag : Scan Malformed Bool := do
  match ← u8 with
  | 0 => return false
  | 1 => return true
  | byte => throw (.flagByte byte)

/-- As many bytes as a number before them says. -/
def sized (what : String) : Scan Malformed Bytes := do
  let length ← u32
  take length.toNat what

def text : Scan Malformed String := do
  match Bytes.text? (← sized "string") with
  | some value => return value
  | none => throw .notText

/-- A byte that says whether a value follows, and the value. -/
def option (present : Scan Malformed α) : Scan Malformed (Option α) := do
  match ← u8 with
  | 0 => return none
  | 1 => return some (← present)
  | byte => throw (.optionByte byte)

theorem follows_u8 : u8.Follows Codec.u8.read :=
  (follows_number 1 "u8").bind fun _ => follows_pure _

theorem follows_u16 : u16.Follows Codec.u16.read :=
  (follows_number 2 "u16").bind fun _ => follows_pure _

theorem follows_u32 : u32.Follows Codec.u32.read :=
  (follows_number 4 "u32").bind fun _ => follows_pure _

theorem follows_u64 : u64.Follows Codec.u64.read :=
  (follows_number 8 "u64").bind fun _ => follows_pure _

theorem Follows.wrap {wrapped : Scan Malformed α} {codec : Codec α}
    (follows : wrapped.Follows codec.read) (into : α → β) (out : β → α) :
    (do return into (← wrapped) : Scan Malformed β).Follows (codec.wrap into out).read :=
  follows.bind fun _ => follows_pure _

theorem follows_flag : flag.Follows Codec.flag.read := by
  refine follows_u8.bind fun byte => ?_
  split
  · exact follows_pure false
  · exact follows_pure true
  · simp only [follows_throw]

theorem follows_sized (what : String) : (sized what).Follows (Codec.sized what).read :=
  follows_u32.bind fun length => follows_bytes length.toNat what

theorem follows_text : text.Follows Codec.text.read := by
  refine (follows_sized "string").bind fun bytes => ?_
  cases Bytes.text? bytes with
  | none => exact follows_throw _
  | some value => exact follows_pure value

theorem Follows.option {present : Scan Malformed α} {codec : Codec α}
    (follows : present.Follows codec.read) : present.option.Follows codec.option.read := by
  refine follows_u8.bind fun byte => ?_
  split
  · exact follows_pure none
  · exact follows.bind fun _ => follows_pure _
  · simp only [follows_throw]

end Scan

end Tether.Wire
