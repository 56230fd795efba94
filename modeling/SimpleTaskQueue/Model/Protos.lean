import SimpleTaskQueue.Model.Proc.Task
/-!
# SimpleTaskQueue.Model.Protos

The messages of the `Queue` and `QueueList` services (`protos/types.proto`, `protos/queue.proto`,
`protos/queuelist.proto`) and the statuses of their calls (`model/errmsg.cpp`).

* A `string` field is a string. An `int32` field has 32 bits: who sets it writes `toInt32`.
* What a stub hands to its caller is a `Reply`. A unary handler that fails leaves the response at
  its default, a streaming one has then written no message.
-/

namespace SimpleTaskQueue

namespace Protos

structure Empty where
  deriving Repr, DecidableEq, Inhabited

structure QueueReq where
  name : Str
  deriving Repr, DecidableEq

structure ListTaskRes where
  ID : Int
  deriving Repr, DecidableEq, Inhabited

structure TaskDetailsReq where
  name : Str
  ID : Int
  deriving Repr, DecidableEq

structure TaskDetailsRes where
  workDir : Str
  execName : Str
  args : List Str
  exitCode : Int
  ID : Int
  deriving Repr, DecidableEq, Inhabited

structure AddTaskReq where
  name : Str
  workDir : Str
  execName : Str
  args : List Str
  deriving Repr, DecidableEq

structure RenameQueueReq where
  oldname : Str
  newName : Str
  deriving Repr, DecidableEq

structure ListQueueRes where
  name : Str
  deriving Repr, DecidableEq, Inhabited

end Protos

/-- The `grpc::StatusCode` values the server uses. -/
inductive StatusCode
  | OK
  | INVALID_ARGUMENT
  | NOT_FOUND
  | ALREADY_EXISTS
  | OUT_OF_RANGE
  | INTERNAL
  deriving Repr, DecidableEq

/-- `grpc::Status`. -/
structure Status where
  code : StatusCode
  message : Str
  deriving Repr, DecidableEq

/-- `grpc::Status::OK`. -/
def Status.OK : Status := ⟨.OK, []⟩

/-- `grpc::Status::ok`. -/
def Status.ok (s : Status) : Bool := s.code == .OK

/-- The `table` of `ErrMsg::init`. -/
def ErrCode.status : ErrCode → StatusCode
  | OK => .OK
  | INVALID_ARGUMENT => .INVALID_ARGUMENT
  | NOT_FOUND => .NOT_FOUND
  | ALREADY_EXISTS => .ALREADY_EXISTS
  | OUT_OF_RANGE => .OUT_OF_RANGE
  | OS_ERROR => .INTERNAL

/-- `ErrMsg::toGRPCStatus`. -/
def toGRPCStatus (code : ErrCode) (msg : Str) : Status := ⟨code.status, msg⟩

/-- An error stays an error. -/
@[simp] theorem toGRPCStatus_ok (code : ErrCode) (msg : Str) :
    (toGRPCStatus code msg).ok = true ↔ code = .OK := by
  cases code <;> simp [toGRPCStatus, ErrCode.status, Status.ok]

/-- The status a handler ends with, and its response; of a stream all messages. -/
structure Reply (ρ : Type) where
  status : Status
  res : ρ

end SimpleTaskQueue
