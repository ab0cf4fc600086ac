import PatchAudit.Report.Record
import PatchAudit.Service.Basic

/-!
# Sessions

A client sends messages over one connection and gets one reply to each, in order.  The session keeps
the reports of the patches that were sent, until the client asks for their summary.
-/

namespace PatchAudit

/-- The reports since the last summary, the oldest first. -/
structure Session where
  reports : List FileReport := []
  deriving DecidableEq, Repr

/-- Why a message is answered with an error. -/
inductive MessageError where
  | malformed
  | unknownType (type : Bytes)
  | badLintData
  | badFolderData
  | service (why : ServiceError)
  deriving DecidableEq, Repr

/-- The wording of an error. -/
def MessageError.message : MessageError → Bytes
  | malformed => "invalid message format"
  | unknownType type => "unknown message type: " ++ type
  | badLintData => "invalid lint_patch data"
  | badFolderData => "invalid run_dir data"
  | service why => why.message

/-- The answer to a message. -/
inductive Reply where
  | report (r : FileReport)
  | summary (s : Summary)
  | error (why : MessageError)
  deriving DecidableEq, Repr

/-- A reply as a value. -/
def Reply.toJson : Reply → JsonValue
  | report r => .object [("type", .string "report"), ("data", r.record.toJson)]
  | summary s => .object [("type", .string "summary"), ("data", s.record.toJson)]
  | error why =>
    .object [("type", .string "error"), ("data", .object [("message", .string why.message)])]

/-- A reply as it is sent. -/
def Reply.text (stray : StraySpelling) (r : Reply) : Bytes := r.toJson.line stray

/-- What a message asks for. -/
inductive ClientMessage where
  | lint (r : LintRequest)
  | run (r : FolderRequest)
  | finish
  deriving DecidableEq, Repr

namespace ClientMessage

/-- The command of a message. -/
def ofEnvelope (e : Envelope) : Except MessageError ClientMessage :=
  if e.type = Bytes.ofString "lint_patch" then
    match e.data.bind LintRequest.ofJson? with
    | some r => .ok (.lint r)
    | none => .error .badLintData
  else if e.type = Bytes.ofString "run_dir" then
    match e.data.bind FolderRequest.ofJson? with
    | some r => .ok (.run r)
    | none => .error .badFolderData
  else if e.type = Bytes.ofString "finish" then .ok .finish
  else .error (.unknownType e.type)

/-- The command of a text, which has to be one JSON value. -/
def ofText (text : Bytes) : Except MessageError ClientMessage :=
  match (JsonValue.whole? text).bind Envelope.ofJson? with
  | some e => ofEnvelope e
  | none => .error .malformed

end ClientMessage

namespace Service

/-- Carries out a command. -/
def perform (s : Service) (d : Disk) (session : Session) : ClientMessage → Disk × Session × Reply
  | .lint r =>
    match s.lint r with
    | .ok report => (d, ⟨session.reports ++ [report]⟩, .report report)
    | .error why => (d, session, .error (.service why))
  | .run r =>
    match s.run d false r with
    | (d, .ok summary) => (d, session, .summary summary)
    | (d, .error why) => (d, session, .error (.service why))
  | .finish => (d, ⟨[]⟩, .summary ⟨[], session.reports⟩)

/-- Answers a message. -/
def reply (s : Service) (d : Disk) (session : Session) (message : Bytes) : Disk × Session × Reply :=
  match ClientMessage.ofText message with
  | .ok command => s.perform d session command
  | .error why => (d, session, .error why)

/-- Answers messages one after the other. -/
def replies (s : Service) (d : Disk) (session : Session) : List Bytes → Disk × List Reply
  | [] => (d, [])
  | message :: rest =>
    let (d, session, answer) := s.reply d session message
    let (d, answers) := replies s d session rest
    (d, answer :: answers)

end Service

end PatchAudit
