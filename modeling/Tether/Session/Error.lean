import Tether.Envelope

namespace Tether.Session

/-- Why a session refuses an operation. -/
inductive SessionError where
  /-- All ids belong to requests that wait. -/
  | idsExhausted
  /-- The id was not taken before. -/
  | notAllocated (id : RequestId)
  /-- A request waits under the id already. -/
  | alreadyPending (id : RequestId)
  /-- No more frames may wait. -/
  | queueFull
  /-- The session is over. -/
  | closed
  deriving DecidableEq, Repr

def SessionError.name : SessionError → String
  | .idsExhausted => "RequestIdsExhausted"
  | .notAllocated _ => "NotAllocated"
  | .alreadyPending _ => "AlreadyPending"
  | .queueFull => "QueueFull"
  | .closed => "Closed"

def SessionError.message : SessionError → String
  | .idsExhausted => "all request ids are in flight"
  | .notAllocated id => "request id " ++ id.text ++ " was not allocated"
  | .alreadyPending id => "request id " ++ id.text ++ " already has a pending request"
  | .queueFull => "outbound queue is full"
  | .closed => "session is closed"

/-- Why a request ends without the answer it is for. -/
inductive RequestError where
  /-- The server reported a fault. -/
  | server (fault : Message.Fault)
  /-- The answer is not a message. -/
  | decode (cause : FrameError)
  /-- The answer is a message of another kind. -/
  | unexpected (tag : UInt16)
  /-- No answer came in time. -/
  | timeout (id : RequestId)
  /-- The session ended first. -/
  | closed
  deriving DecidableEq, Repr

def RequestError.name : RequestError → String
  | .server _ => "Server"
  | .decode _ => "Decode"
  | .unexpected _ => "UnexpectedResponse"
  | .timeout _ => "Timeout"
  | .closed => "Closed"

def RequestError.message : RequestError → String
  | .server fault => fault.text
  | .decode cause => "response could not be decoded: " ++ cause.message
  | .unexpected tag => "unexpected response with tag " ++ toString tag.toNat
  | .timeout id => "request " ++ id.text ++ " timed out"
  | .closed => "session closed before a response arrived"

/-- Why a call of an application fails. -/
inductive CallError where
  | frame (cause : FrameError)
  | session (cause : SessionError)
  | request (cause : RequestError)
  /-- The deadline of the request is past the range of the steady clock. -/
  | deadline
  deriving DecidableEq, Repr

def CallError.message : CallError → String
  | .frame cause => cause.message
  | .session cause => cause.message
  | .request cause => cause.message
  | .deadline => "overflow when adding duration to instant"

end Tether.Session
