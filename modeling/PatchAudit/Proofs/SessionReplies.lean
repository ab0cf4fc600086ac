import Mathlib.Data.List.Induction
import PatchAudit.Service.Session

/-!
# What a session answers

A session is a machine whose state is the list of reports since the last summary.  One step lemma
says how a message moves that list (`reply_reports`), and an induction over the messages gives its
value in terms of messages and answers alone (`after_reports`): the reports that were sent out since
the last `finish`.  From there every `finish` is known to answer with exactly these.
-/

namespace PatchAudit

/-- Whether a message asks for the summary. -/
def ClientMessage.isFinish (message : Bytes) : Bool :=
  match ClientMessage.ofText message with
  | .ok .finish => true
  | _ => false

theorem ClientMessage.isFinish_iff {message : Bytes} :
    isFinish message = true ↔ ofText message = .ok .finish := by
  unfold isFinish
  split <;> simp_all

/-- The report that an answer brings. -/
def Reply.report? : Reply → Option FileReport
  | report r => some r
  | _ => none

theorem Reply.report?_eq_some {a : Reply} {r : FileReport} : a.report? = some r ↔ a = .report r := by
  cases a <;> simp [Reply.report?]

/-- The field of an object. -/
def JsonValue.field? (name : Bytes) : JsonValue → Option JsonValue
  | object fields => fields.lookup name
  | _ => none

/-- The reports that were sent out after the last `finish`, read off messages and their answers. -/
def Session.sentSinceFinish (exchanges : List (Bytes × Reply)) : List FileReport :=
  (exchanges.reverse.takeWhile fun e => !ClientMessage.isFinish e.1).reverse.filterMap
    fun e => e.2.report?

namespace Service

/-- The disk and the session after messages. -/
def after (s : Service) (d : Disk) (session : Session) : List Bytes → Disk × Session
  | [] => (d, session)
  | message :: rest =>
    let (d, session, _) := s.reply d session message
    after s d session rest

/-! ### One message -/

/-- **One message.**  A `finish` empties the session, an answer with a report adds this report at
the end, and any other message leaves the session as it is. -/
theorem reply_reports (s : Service) (d : Disk) (session : Session) (message : Bytes) :
    (s.reply d session message).2.1.reports =
      if ClientMessage.isFinish message then []
      else session.reports ++ (s.reply d session message).2.2.report?.toList := by
  unfold reply ClientMessage.isFinish
  cases hm : ClientMessage.ofText message with
  | error why => simp [Reply.report?]
  | ok command =>
    cases command with
    | finish => simp [perform]
    | lint q =>
      simp only [perform]
      cases s.lint q <;> simp [Reply.report?]
    | run q =>
      simp only [perform]
      rcases s.run d false q with ⟨d', summary | why⟩ <;> simp [Reply.report?]

/-- Only a patch that could be looked at is answered with a report. -/
theorem reply_eq_report_iff (s : Service) (d : Disk) (session : Session) (message : Bytes)
    (r : FileReport) :
    (s.reply d session message).2.2 = .report r ↔
      ∃ q, ClientMessage.ofText message = .ok (.lint q) ∧ s.lint q = .ok r := by
  unfold reply
  cases hm : ClientMessage.ofText message with
  | error why => simp
  | ok command =>
    cases command with
    | finish => simp [perform]
    | lint q =>
      simp only [perform]
      cases hq : s.lint q <;> simp [hq]
    | run q =>
      simp only [perform]
      rcases s.run d false q with ⟨d', summary | why⟩ <;> simp

theorem reply_finish (s : Service) (d : Disk) (session : Session) {message : Bytes}
    (h : ClientMessage.ofText message = .ok .finish) :
    (s.reply d session message).2.2 = .summary ⟨[], session.reports⟩ := by
  simp [reply, h, perform]

/-! ### All messages -/

theorem replies_cons (s : Service) (d : Disk) (session : Session) (message : Bytes)
    (rest : List Bytes) :
    (s.replies d session (message :: rest)).2 = (s.reply d session message).2.2 ::
      (s.replies (s.reply d session message).1 (s.reply d session message).2.1 rest).2 := rfl

theorem after_cons (s : Service) (d : Disk) (session : Session) (message : Bytes)
    (rest : List Bytes) :
    s.after d session (message :: rest) =
      s.after (s.reply d session message).1 (s.reply d session message).2.1 rest := rfl

theorem length_replies (s : Service) (d : Disk) (session : Session) (messages : List Bytes) :
    (s.replies d session messages).2.length = messages.length := by
  induction messages generalizing d session with
  | nil => rfl
  | cons message rest ih =>
    rw [replies_cons, List.length_cons, List.length_cons, ih]

theorem replies_append (s : Service) (d : Disk) (session : Session) (xs ys : List Bytes) :
    (s.replies d session (xs ++ ys)).2 = (s.replies d session xs).2 ++
      (s.replies (s.after d session xs).1 (s.after d session xs).2 ys).2 := by
  induction xs generalizing d session with
  | nil => rfl
  | cons message xs ih =>
    rw [List.cons_append, replies_cons, replies_cons, List.cons_append, after_cons, ih]

theorem after_append (s : Service) (d : Disk) (session : Session) (xs ys : List Bytes) :
    s.after d session (xs ++ ys) = s.after (s.after d session xs).1 (s.after d session xs).2 ys := by
  induction xs generalizing d session with
  | nil => rfl
  | cons message xs ih =>
    rw [List.cons_append, after_cons, after_cons, ih]

end Service

theorem Session.sentSinceFinish_concat (exchanges : List (Bytes × Reply)) (message : Bytes)
    (answer : Reply) :
    sentSinceFinish (exchanges ++ [(message, answer)]) =
      if ClientMessage.isFinish message then []
      else sentSinceFinish exchanges ++ answer.report?.toList := by
  unfold sentSinceFinish
  rw [List.reverse_append, List.reverse_singleton, List.singleton_append, List.takeWhile_cons]
  by_cases h : ClientMessage.isFinish message = true
  · simp [h]
  · simp only [h, Bool.not_false, if_true, List.reverse_cons, List.filterMap_append,
      Bool.false_eq_true, if_false]
    rfl

namespace Service

/-- **The state of a session**, in terms of what went over the connection. -/
theorem after_reports (s : Service) (d : Disk) (messages : List Bytes) :
    (s.after d {} messages).2.reports =
      Session.sentSinceFinish (messages.zip (s.replies d {} messages).2) := by
  induction messages using List.reverseRecOn with
  | nil => rfl
  | append_singleton before message ih =>
    have hzip : (before ++ [message]).zip (s.replies d {} (before ++ [message])).2 =
        before.zip (s.replies d {} before).2 ++
          [(message, (s.reply (s.after d {} before).1 (s.after d {} before).2 message).2.2)] := by
      rw [replies_append, List.zip_append (length_replies s d {} before).symm]
      rfl
    rw [hzip, Session.sentSinceFinish_concat, ← ih, after_append]
    exact reply_reports s _ _ message

end Service

/-! ### Summaries -/

/-- The totals of a summary can be read off the file records in it. -/
theorem Summary.record_totals (dir : Bytes) (reports : List FileReport) :
    (Summary.mk dir reports).record.files = reports.map FileReport.record ∧
    (Summary.mk dir reports).record.valid = (reports.map FileReport.record).countP (·.valid) ∧
    (Summary.mk dir reports).record.total = (reports.map FileReport.record).length ∧
    ((Summary.mk dir reports).record.ok = true ↔
      reports ≠ [] ∧ ∀ f ∈ reports.map FileReport.record, f.valid = true) ∧
    (Summary.mk dir reports).record.byCheck =
      ((reports.map FileReport.record).flatMap FileRecord.issues).foldl
        (fun acc i => Summary.tally i.check acc) [] := by
  refine ⟨rfl, ?_, by simp [Summary.record, Summary.totalCount], ?_, ?_⟩
  · rw [List.countP_map]
    rfl
  · simp only [Summary.record, Summary.isOk, Summary.totalCount, Summary.validCount,
      Bool.and_eq_true, decide_eq_true_eq, beq_iff_eq, List.countP_eq_length, List.mem_map,
      forall_exists_index, and_imp, forall_apply_eq_imp_iff₂, List.length_pos_iff]
    rfl
  · have hissues : (reports.map FileReport.record).flatMap FileRecord.issues =
        (reports.flatMap FileReport.issues).map Issue.record := by
      rw [List.flatMap_map, List.map_flatMap]
      rfl
    rw [hissues, List.foldl_map]
    rfl

/-- The object that a summary is sent out as. -/
theorem Reply.field?_data_summary (s : Summary) :
    (Reply.summary s).toJson.field? "data" = some s.record.toJson := rfl

theorem SummaryRecord.field?_files (s : SummaryRecord) :
    s.toJson.field? "files" = some (.array (s.files.map FileRecord.toJson)) := rfl

/-- The objects of the reports sent out since the last `finish`. -/
def Session.objectsSinceFinish (exchanges : List (Bytes × Reply)) : List JsonValue :=
  (exchanges.reverse.takeWhile fun e => !ClientMessage.isFinish e.1).reverse.filterMap
    fun e => e.2.report?.bind fun _ => e.2.toJson.field? "data"

theorem Session.objectsSinceFinish_eq (exchanges : List (Bytes × Reply)) :
    objectsSinceFinish exchanges =
      (sentSinceFinish exchanges).map fun r => r.record.toJson := by
  unfold objectsSinceFinish sentSinceFinish
  rw [List.map_filterMap]
  congr 1
  funext e
  cases e.2 <;> rfl

/-! ### The whole connection -/

/-- **A session answers every message once and in order, and loses no report.**  For every message
of every connection: the answers up to it are those to the messages before it, followed by its own;
it is answered with a report exactly if it brings a patch that could be looked at; a `finish` is
answered with the summary of the reports sent out since the `finish` before it, whose files are the
very objects that were sent; and any message that is neither leaves the session as it was. -/
theorem session_answers_every_message (s : Service) (d : Disk) (messages : List Bytes) :
    (s.replies d {} messages).2.length = messages.length ∧
    ∀ (before : List Bytes) (message : Bytes) (rest : List Bytes),
      messages = before ++ message :: rest →
      ∃ answer later, (s.replies d {} messages).2 = (s.replies d {} before).2 ++ answer :: later ∧
        (∀ r, answer = .report r ↔
          ∃ q, ClientMessage.ofText message = .ok (.lint q) ∧ s.lint q = .ok r) ∧
        (ClientMessage.ofText message = .ok .finish →
          let exchanges := before.zip (s.replies d {} before).2
          let reports := Session.sentSinceFinish exchanges
          let files := reports.map FileReport.record
          ∃ total : SummaryRecord, answer = .summary ⟨[], reports⟩ ∧
            answer.toJson.field? "type" = some (.string "summary") ∧
            answer.toJson.field? "data" = some total.toJson ∧
            total.toJson.field? "files" = some (.array (Session.objectsSinceFinish exchanges)) ∧
            total.files = files ∧ total.valid = files.countP (·.valid) ∧
            total.total = files.length ∧
            (total.ok = true ↔ reports ≠ [] ∧ ∀ f ∈ files, f.valid = true) ∧
            total.byCheck = (files.flatMap FileRecord.issues).foldl
              (fun acc i => Summary.tally i.check acc) []) ∧
        (ClientMessage.ofText message ≠ .ok .finish → (∀ r, answer ≠ .report r) →
          (s.after d {} (before ++ [message])).2 = (s.after d {} before).2) := by
  refine ⟨Service.length_replies s d {} messages, ?_⟩
  rintro before message rest rfl
  refine ⟨(s.reply (s.after d {} before).1 (s.after d {} before).2 message).2.2, _,
    Service.replies_append s d {} before (message :: rest), ?_, ?_, ?_⟩
  · intro r
    exact Service.reply_eq_report_iff s _ _ message r
  · intro hfinish exchanges reports files
    have hanswer := Service.reply_finish s (s.after d {} before).1 (s.after d {} before).2 hfinish
    rw [Service.after_reports] at hanswer
    obtain ⟨hfiles, hvalid, htotal, hok, hchecks⟩ := Summary.record_totals [] reports
    refine ⟨(Summary.mk [] reports).record, hanswer, ?_, ?_, ?_, hfiles, hvalid, htotal, hok, hchecks⟩
    · rw [hanswer]
      rfl
    · rw [hanswer]
      exact Reply.field?_data_summary _
    · rw [SummaryRecord.field?_files, Session.objectsSinceFinish_eq, hfiles, List.map_map]
      rfl
  · intro hfinish hreport
    have hreports := Service.reply_reports s (s.after d {} before).1 (s.after d {} before).2 message
    have hnone : (s.reply (s.after d {} before).1 (s.after d {} before).2 message).2.2.report? =
        none := by
      cases h : (s.reply (s.after d {} before).1 (s.after d {} before).2 message).2.2.report? with
      | none => rfl
      | some r => exact absurd (Reply.report?_eq_some.mp h) (hreport r)
    rw [hnone, if_neg (mt ClientMessage.isFinish_iff.mp hfinish)] at hreports
    rw [Service.after_append]
    simp only [Service.after]
    cases hsession : (s.reply (s.after d {} before).1 (s.after d {} before).2 message).2.1
    simp_all

/-- A service with the standard checks. -/
def standardService : Service where
  linter := ⟨{}, by decide⟩
  pattern := "*.patch"

/-- A patch, a text that is no message, and a patch that is missing. -/
def mixedMessages : List Bytes :=
  ["\x7b\"type\":\"lint_patch\",\"data\":\x7b\"patch\":\"x\"\x7d\x7d", "\x7b",
    "\x7b\"type\":\"lint_patch\",\"data\":null\x7d"]

def finishMessage : Bytes := "\x7b\"type\":\"finish\"\x7d"

theorem session_answers_every_message_mixed :
    ClientMessage.ofText finishMessage = .ok .finish ∧
    ∃ answer later,
      (standardService.replies ⟨[], []⟩ {} (mixedMessages ++ finishMessage :: mixedMessages)).2 =
        (standardService.replies ⟨[], []⟩ {} mixedMessages).2 ++ answer :: later ∧
      answer = .summary ⟨[], [standardService.linter.lint (Document.ofText "patch.patch" "x")]⟩ := by
  have hfinish : ClientMessage.ofText finishMessage = .ok .finish := by decide +kernel
  have hsent : Session.sentSinceFinish
      (mixedMessages.zip (standardService.replies ⟨[], []⟩ {} mixedMessages).2) =
        [standardService.linter.lint (Document.ofText "patch.patch" "x")] := by decide +kernel
  obtain ⟨answer, later, hanswers, -, hsummary, -⟩ :=
    (session_answers_every_message standardService ⟨[], []⟩ _).2 mixedMessages finishMessage
      mixedMessages rfl
  obtain ⟨-, hanswer, -⟩ := hsummary hfinish
  refine ⟨hfinish, answer, later, hanswers, ?_⟩
  rw [hanswer, hsent]

end PatchAudit
