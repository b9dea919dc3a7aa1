import Tether.Message.FieldKind
import Tether.Proofs.Wire.Cursor

namespace Tether

open Wire (Breach Grasp Malformed Reader Scan)

/-- One byte. -/
def RequestId.scan : Scan Malformed RequestId := do return ⟨← Scan.u8⟩

def Time.Duration.scan : Scan Malformed Time.Duration := do return ⟨← Scan.u64⟩

def Time.Timestamp.scan : Scan Malformed Time.Timestamp := do return ⟨← Scan.u64⟩

def Time.ServerTimestamp.scan : Scan Malformed Time.ServerTimestamp := do return ⟨← Scan.u64⟩

theorem RequestId.follows_scan : scan.Follows codec.read := Scan.follows_u8.wrap mk byte

theorem Time.Duration.follows_scan : scan.Follows codec.read := Scan.follows_u64.wrap mk millis

theorem Time.Timestamp.follows_scan : scan.Follows codec.read := Scan.follows_u64.wrap mk millis

theorem Time.ServerTimestamp.follows_scan : scan.Follows codec.read :=
  Scan.follows_u64.wrap mk millis

/-- A byte that says whether the text is sealed; a sealed one has its salt first. -/
def Crypto.SafeText.scan : Scan Malformed Crypto.SafeText := do
  match ← Scan.u8 with
  | 0 => return .plain (← Scan.text)
  | 1 =>
    let salt ← Scan.takeArray saltSize "salt"
    return .sealed ⟨salt, ← Scan.sized "ciphertext"⟩
  | byte => throw (.safeTextByte byte)

theorem Crypto.SafeText.follows_scan : scan.Follows codec.read := by
  refine Scan.follows_u8.bind fun byte => ?_
  split
  · exact Scan.follows_text.bind fun _ => Scan.follows_pure _
  · refine (Scan.follows_takeArray saltSize "salt").bind fun salt => ?_
    exact (Scan.follows_sized "ciphertext").bind fun _ => Scan.follows_pure _
  · simp only [Scan.follows_throw]

namespace Message

def Status.scan : Scan Malformed Status := do
  match ← Scan.u8 with
  | 0 => return .ok
  | byte => throw (.statusByte byte)

theorem Status.follows_scan : scan.Follows codec.read := by
  refine Scan.follows_u8.bind fun byte => ?_
  split
  · exact Scan.follows_pure _
  · simp only [Scan.follows_throw]

def ServerStatus.scan : Scan Malformed ServerStatus := do
  let timestamp ← Time.ServerTimestamp.scan
  let status ← Status.scan
  return ⟨timestamp, status⟩

theorem ServerStatus.follows_scan : scan.Follows codec.read :=
  Time.ServerTimestamp.follows_scan.bind fun _ =>
    Status.follows_scan.bind fun _ => Scan.follows_pure _

def Decay.scan : Scan Malformed Decay := do
  let startedAt ← Time.ServerTimestamp.scan
  let length ← Time.Duration.scan
  return ⟨startedAt, length⟩

theorem Decay.follows_scan : scan.Follows codec.read :=
  Time.ServerTimestamp.follows_scan.bind fun _ =>
    Time.Duration.follows_scan.bind fun _ => Scan.follows_pure _

def FaultCode.scan : Scan Malformed FaultCode := do
  match ← Scan.u8 with
  | 0 => return .authentication
  | 1 => return .serialization
  | 2 => return .invalidData
  | 3 => return .io
  | 4 => return .server
  | byte => throw (.faultCodeByte byte)

theorem FaultCode.follows_scan : scan.Follows codec.read := by
  refine Scan.follows_u8.bind fun byte => ?_
  split
  case h_6 => simp only [Scan.follows_throw]
  all_goals exact Scan.follows_pure _

def Fault.scan : Scan Malformed Fault := do
  let code ← FaultCode.scan
  let description ← Scan.text
  let context ← Scan.text.option
  let requestId ← RequestId.scan
  let messageTag ← Scan.u16
  let recoverable ← Scan.flag
  return ⟨code, description, context, requestId, messageTag, recoverable⟩

theorem Fault.follows_scan : scan.Follows codec.read :=
  FaultCode.follows_scan.bind fun _ =>
    Scan.follows_text.bind fun _ =>
      Scan.follows_text.option.bind fun _ =>
        RequestId.follows_scan.bind fun _ =>
          Scan.follows_u16.bind fun _ =>
            Scan.follows_flag.bind fun _ => Scan.follows_pure _

namespace FieldKind

def scan : (kind : FieldKind) → Scan Malformed kind.Value
  | .u8 => Scan.u8
  | .u16 => Scan.u16
  | .u32 => Scan.u32
  | .u64 => Scan.u64
  | .flag => Scan.flag
  | .text => Scan.text
  | .safeText => Crypto.SafeText.scan
  | .timestamp => Time.Timestamp.scan
  | .serverTimestamp => Time.ServerTimestamp.scan
  | .duration => Time.Duration.scan
  | .status => Status.scan
  | .faultCode => FaultCode.scan
  | .ping => pure ()
  | .decayQuery => pure ()
  | .identity => Crypto.SafeText.scan
  | .serverStatus => ServerStatus.scan
  | .decay => Decay.scan
  | .fault => Fault.scan
  | .option kind => kind.scan.option

theorem follows_scan (kind : FieldKind) : kind.scan.Follows kind.codec.read := by
  induction kind with
  | u8 => exact Scan.follows_u8
  | u16 => exact Scan.follows_u16
  | u32 => exact Scan.follows_u32
  | u64 => exact Scan.follows_u64
  | flag => exact Scan.follows_flag
  | text => exact Scan.follows_text
  | safeText => exact Crypto.SafeText.follows_scan
  | timestamp => exact Time.Timestamp.follows_scan
  | serverTimestamp => exact Time.ServerTimestamp.follows_scan
  | duration => exact Time.Duration.follows_scan
  | status => exact Status.follows_scan
  | faultCode => exact FaultCode.follows_scan
  | ping => exact Scan.follows_pure ()
  | decayQuery => exact Scan.follows_pure ()
  | identity => exact Crypto.SafeText.follows_scan
  | serverStatus => exact ServerStatus.follows_scan
  | decay => exact Decay.follows_scan
  | fault => exact Fault.follows_scan
  | option kind ih => exact ih.option

end FieldKind

/-- What may be asked of a cursor. -/
inductive Call where
  | read (kind : FieldKind)
  | take (count : Nat) (what : String)
  | takeArray (count : Nat) (what : String)
  deriving DecidableEq, Repr

inductive Got where
  | field (field : Field)
  | bytes (taken : Bytes)

structure Report where
  call : Call
  /-- What was unread before it. -/
  before : Bytes
  outcome : Except Malformed Got
  /-- What the single reads in it got. -/
  grasped : List Grasp
  /-- What it left unread. -/
  after : Bytes

namespace Call

def scan : Call → Scan Malformed Got
  | .read kind => do return .field ⟨kind, ← kind.scan⟩
  | .take count what => do return .bytes (← Scan.take count what)
  | .takeArray count what => do return .bytes (← Scan.takeArray count what).val

/-- What a call is for. -/
def reader : Call → Reader Got
  | .read kind => do return .field ⟨kind, ← kind.codec.read⟩
  | .take count what => do return .bytes (← Reader.bytes count what).val
  | .takeArray count what => do return .bytes (← Reader.bytes count what).val

/-- Whether a call is one single read: it takes bytes or gets a number. -/
def isSingle : Call → Bool
  | .read .u8 => true
  | .read .u16 => true
  | .read .u32 => true
  | .read .u64 => true
  | .read _ => false
  | .take _ _ => true
  | .takeArray _ _ => true

/-- Carry out a call where so much is unread. -/
def report (call : Call) (unread : Bytes) : Except Breach Report := do
  let (outcome, cursor) ← call.scan ⟨unread, []⟩
  return ⟨call, unread, outcome, cursor.grasped, cursor.unread⟩

/-- Carry out one call after another, also after calls that failed. -/
def reports : List Call → Bytes → Except Breach (List Report)
  | [], _ => return []
  | call :: calls, unread => do
    let report ← call.report unread
    let later ← reports calls report.after
    return report :: later

theorem follows_scan (call : Call) : call.scan.Follows call.reader := by
  cases call with
  | read kind => exact kind.follows_scan.bind fun _ => Scan.follows_pure _
  | take count what => exact (Scan.follows_bytes count what).bind fun _ => Scan.follows_pure _
  | takeArray count what =>
    exact (Scan.follows_takeArray count what).bind fun _ => Scan.follows_pure _

theorem reader_of_isSingle {call : Call} (single : call.isSingle = true) :
    ∃ (count : Nat) (what : String) (got : FixedBytes count → Got),
      call.reader = .take count what fun taken => .done (got taken) := by
  unfold isSingle at single
  split at single
  case h_5 => cases single
  all_goals exact ⟨_, _, _, rfl⟩

theorem left_of_isSingle {call : Call} {unread left : Bytes} {cause : Malformed}
    (single : call.isSingle = true) (failed : call.reader.run unread = (.error cause, left)) :
    left = unread := by
  obtain ⟨count, what, got, same⟩ := reader_of_isSingle single
  rw [same, Reader.run] at failed
  split at failed
  · cases failed
    rfl
  · cases failed

end Call

/-- What is to be said of every call, whatever came before it. -/
structure Report.Sound (report : Report) : Prop where
  /-- It came to what its reader comes to, and left what that leaves. -/
  follows : report.call.reader.run report.before = (report.outcome, report.after)
  /-- It used up what the single reads that succeeded have got, and nothing else. -/
  used : report.before = report.grasped.flatMap Grasp.used ++ report.after
  /-- A single read that failed used up nothing. -/
  stays : report.call.isSingle = true →
    ∀ cause, report.outcome = .error cause → report.after = report.before

namespace Call

theorem sound_report (call : Call) (unread : Bytes) :
    ∃ report, call.report unread = .ok report ∧ report.call = call ∧ report.before = unread ∧
      report.Sound := by
  obtain ⟨grasped, ran, used⟩ := call.follows_scan ⟨unread, []⟩
  rw [List.nil_append] at ran
  refine ⟨⟨call, unread, (call.reader.run unread).1, grasped, (call.reader.run unread).2⟩, ?_, rfl,
    rfl, rfl, used, ?_⟩
  · rw [report, ran]
    rfl
  · intro single cause failed
    exact left_of_isSingle single (Prod.ext failed rfl)

/-- Whatever is called for, in whatever order and after whatever failures, no call breaks off. -/
theorem sound_reports (calls : List Call) (unread : Bytes) :
    ∃ made, reports calls unread = .ok made ∧ made.map Report.call = calls ∧
      ∀ report ∈ made, report.Sound ∧ report.after <:+ unread := by
  induction calls generalizing unread with
  | nil => exact ⟨[], rfl, rfl, by simp⟩
  | cons call calls ih =>
    obtain ⟨report, ran, rfl, rfl, sound⟩ := call.sound_report unread
    obtain ⟨later, ranLater, same, sounds⟩ := ih report.after
    have shorter : report.after <:+ report.before := ⟨_, sound.used.symm⟩
    refine ⟨report :: later, ?_, congrArg (_ :: ·) same, ?_⟩
    · rw [reports, ran]
      change (reports calls report.after >>= _) = _
      rw [ranLater]
      rfl
    · intro other member
      rcases List.mem_cons.mp member with rfl | member
      · exact ⟨sound, shorter⟩
      · exact ⟨(sounds other member).1, (sounds other member).2.trans shorter⟩

/-- A text that is cut short costs its length. -/
example : (reports [.read .text, .take 2 "rest", .read .u8] [0, 0, 0, 9, 97]).toOption.map
    (·.map Report.after) = some [[97], [97], []] := rfl

end Call

/-- A row of a vocabulary's table with the scan of its payload. -/
structure Row (M : Type) where
  entry : Entry M
  scan : Scan Malformed M
  follows : scan.Follows entry.payload

def Row.ofKind {M : Type} (tag : UInt16) (name : String) (authenticated : Bool) (kind : FieldKind)
    (into : kind.Value → M) : Row M where
  entry := ⟨tag, name, authenticated, do return into (← kind.codec.read)⟩
  scan := do return into (← kind.scan)
  follows := kind.follows_scan.bind fun _ => Scan.follows_pure _

/-- A vocabulary with a scan in each of its rows. -/
class Scanned (M : Type) [Vocabulary M] where
  rows : List (Row M)
  table_eq : Vocabulary.table = rows.map Row.entry

instance : Scanned ClientMessage where
  rows :=
    [ .ofKind 0 "ping" false .ping fun _ => .ping,
      .ofKind 2 "decay-query" true .decayQuery fun _ => .decayQuery,
      .ofKind 3 "identity" true .identity .identity ]
  table_eq := rfl

instance : Scanned ServerMessage where
  rows :=
    [ .ofKind 1 "server-status" false .serverStatus .status,
      .ofKind 2 "decay" false .decay .decay,
      .ofKind 3 "server-error" false .fault .fault ]
  table_eq := rfl

def Scanned.row? (M : Type) [Vocabulary M] [Scanned M] (tag : UInt16) : Option (Row M) :=
  (rows (M := M)).find? fun row => row.entry.tag == tag

theorem Scanned.lookup_eq (M : Type) [Vocabulary M] [Scanned M] (tag : UInt16) :
    Vocabulary.lookup M tag = (row? M tag).map Row.entry := by
  rw [Vocabulary.lookup, table_eq, List.find?_map]
  rfl

end Message

end Tether
