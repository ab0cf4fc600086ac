import PatchAudit.Proofs.CheckVerdict
import PatchAudit.Proofs.JsonInMessage
import PatchAudit.Proofs.PlainFolder
import PatchAudit.Proofs.PlainIssues
import PatchAudit.Proofs.RecordReading
import PatchAudit.Proofs.SessionReplies
import PatchAudit.Service.Exchange

/-!
# One patch, looked at in three ways

A patch can be sent as the body of a request, sent as a message of a session, or left in a directory
that a request names.  From all three answers a client reads one record of the patch, apart from its
path (`service_and_run_agree`).
-/

namespace PatchAudit

/-! ### Requests to an endpoint -/

/-- A request that sends a body to a path. -/
def HttpRequest.post (path body : Bytes) : HttpRequest where
  method := "POST"
  target := path
  body := body

/-- A path that is given as it is meant leads to an endpoint, which takes what is sent. -/
structure Endpoint.Takes (e : Endpoint) (path : Bytes) : Prop where
  notStar : path ≠ Bytes.ofString "*"
  given : Address.target? path = some (path, [])
  plain : path.all Percent.isGivenPathByte = true
  clean : HttpRequest.cleanPath path = path
  leads : Endpoint.at? path = some e
  takes : e.methods.contains (Bytes.ofString "POST") = true

theorem Endpoint.lint_takes : lint.Takes "/api/lint" := by constructor <;> decide +kernel

theorem Endpoint.run_takes : run.Takes "/api/run" := by constructor <;> decide +kernel

/-- The patch that the body of a request asks about. -/
def LintRequest.ofBody? (body : Bytes) : Option LintRequest :=
  (JsonValue.first? body).bind fun v => ofJson? v.1

/-- The directory that the body of a request asks about. -/
def FolderRequest.ofBody? (body : Bytes) : Option FolderRequest :=
  (JsonValue.first? body).bind fun v => ofJson? v.1

namespace Service

theorem respond_post {e : Endpoint} {path : Bytes} (h : e.Takes path) (s : Service) (d : Disk)
    (body : Bytes) : s.respond d (.post path body) = s.serve d (.post path body) e := by
  have htunnel : (HttpRequest.post path body).isTunnel = false := by
    show (Bytes.ofString "POST" == Bytes.ofString "CONNECT") = false
    decide
  have hplace : (HttpRequest.post path body).place = (path, []) := by
    have haddress : (HttpRequest.post path body).address = path := by
      unfold HttpRequest.address
      rw [htunnel]
      rfl
    unfold HttpRequest.place
    rw [haddress, h.given]
    simp [h.plain]
  have hstar : (HttpRequest.post path body).target ≠ Bytes.ofString "*" := h.notStar
  have hmethod : e.methods.contains (HttpRequest.post path body).method = true := h.takes
  unfold respond
  rw [if_neg hstar, hplace]
  simp only [h.clean]
  rw [if_neg (by simp)]
  unfold serveAt
  rw [h.leads]
  simp only [hmethod, if_true]

variable (s : Service) (d : Disk)

theorem respond_lint (body : Bytes) :
    s.respond d (.post "/api/lint" body) =
      (d, match LintRequest.ofBody? body with
        | none => .error s.strayBytes 400 ServiceError.malformed.message
        | some q =>
          match s.lint q with
          | .ok r => .json s.strayBytes 200 r.record.toJson
          | .error why => .error s.strayBytes why.status why.message) := by
  have hbody : ((JsonValue.first? (HttpRequest.post "/api/lint" body).body).bind fun v =>
      LintRequest.ofJson? v.1) = LintRequest.ofBody? body := rfl
  rw [respond_post Endpoint.lint_takes, serve, hbody]
  cases LintRequest.ofBody? body with
  | none => rfl
  | some q => cases h : s.lint q <;> simp only [h]

theorem respond_run {body : Bytes} {q : FolderRequest} {d' : Disk} {t : Summary}
    (hq : FolderRequest.ofBody? body = some q) (ht : s.run d false q = (d', .ok t)) :
    s.respond d (.post "/api/run" body) = (d', .json s.strayBytes 200 t.record.toJson) := by
  have hbody : ((JsonValue.first? (HttpRequest.post "/api/run" body).body).bind fun v =>
      FolderRequest.ofJson? v.1) = some q := hq
  have hpresent : (HttpRequest.post "/api/run" body).cancelled = false := rfl
  rw [respond_post Endpoint.run_takes, serve, hbody]
  simp only [hpresent, ht]

/-! ### When a patch is looked at -/

theorem lint_of_patch {q : LintRequest} (hname : q.name ≠ []) (hpatch : q.patch ≠ []) :
    s.lint q = .ok (s.linter.lint (Document.ofText q.name q.patch)) := by
  have h₁ : q.patch.isEmpty = false := by simp [hpatch]
  have h₂ : q.name.isEmpty = false := by simp [hname]
  unfold lint
  rw [h₁, h₂]
  rfl

theorem lint_error {q : LintRequest} {why : ServiceError} (h : s.lint q = .error why) :
    why = .noPatch := by
  unfold lint at h
  split_ifs at h
  cases h
  rfl

/-- A request about a patch succeeds exactly if there is a patch in it. -/
theorem status_respond_lint (body : Bytes) :
    (s.respond d (.post "/api/lint" body)).2.status = 200 ↔
      ∃ q r, LintRequest.ofBody? body = some q ∧ s.lint q = .ok r := by
  rw [respond_lint]
  cases hq : LintRequest.ofBody? body with
  | none => simp [HttpResponse.error, HttpResponse.json]
  | some q =>
    cases hr : s.lint q with
    | ok r => simp [HttpResponse.json, hr]
    | error why =>
      obtain rfl := lint_error s hr
      simp [HttpResponse.error, HttpResponse.json, ServiceError.status, hr]

/-- A message that sends data about a patch. -/
def lintMessage (text : Bytes) : Bytes :=
  JsonValue.taggedText .escape "type" "lint_patch" "data" text

/-- A message about a patch carries its data, unless their brackets nest as deep as they may. -/
theorem ofText_lintMessage {text : Bytes} {v : JsonValue} (h : JsonValue.whole? text = some v)
    (hv : v.nesting < JsonValue.mostNested) :
    ClientMessage.ofText (lintMessage text) =
      match LintRequest.ofJson? v with
      | some q => .ok (.lint q)
      | none => .error .badLintData := by
  have hread : (JsonValue.whole? (lintMessage text)).bind Envelope.ofJson? =
      some ⟨"lint_patch", some v⟩ := by
    rw [lintMessage, JsonValue.whole?_taggedText h hv]
    rfl
  unfold ClientMessage.ofText
  rw [hread]
  rfl

end Service

/-! ### One record -/

/-- The checks see of a document its text, and its name in lower case. -/
theorem Check.issues_congr {o : LintOptions} {a b : Document} (htext : a.text = b.text)
    (hname : a.name.lower = b.name.lower) (c : Check) : c.issues o a = c.issues o b := by
  have hclassified : a.classified = b.classified := by
    unfold Document.classified Document.lines
    rw [htext]
  cases c with
  | shape => simp only [issues, htext]
  | braces => simp only [issues, hclassified]
  | branding =>
    have happlies : o.branding.appliesTo a.name = o.branding.appliesTo b.name := by
      unfold BrandingRule.appliesTo
      rw [hname]
    simp only [issues, BrandingRule.issues, hclassified, happlies]

/-- Two patches of one text, whose names differ at most in case, have one record but for name and
path. -/
theorem LintOptions.record_report (o : LintOptions) {a b : Document} (htext : a.text = b.text)
    (hname : a.name.lower = b.name.lower) :
    (o.report a).record = { (o.report b).record with name := a.name, path := a.path } := by
  have hissues : (o.report a).issues = (o.report b).issues :=
    congrArg List.flatten (List.map_congr_left fun c _ => c.issues_congr htext hname)
  have hstats : (o.report a).stats = (o.report b).stats := by
    simp only [report, Document.stats, htext]
  simp only [FileReport.record, FileReport.isValid, hissues, hstats]
  rfl

theorem Bytes.lower_scrub (s : Bytes) : s.scrub.lower = s.lower := by
  unfold Bytes.lower
  rw [Bytes.chars_scrub]

/-- The value that a client reads in the body of a response. -/
def HttpResponse.value? (r : HttpResponse) : Option JsonValue := JsonValue.whole? r.body

theorem HttpResponse.value?_json (stray : StraySpelling) (status : Nat) {v : JsonValue}
    (h : JsonValue.Fits JsonValue.mostNested v) : (json stray status v).value? = some v.scrubbed :=
  JsonValue.whole?_document stray .indented h

/-- A record that is sent is read as it is, with stray bytes replaced. -/
theorem FileRecord.value?_json (stray : StraySpelling) (status : Nat) (r : FileRecord) :
    (HttpResponse.json stray status r.toJson).value? = some r.scrubbed.toJson := by
  rw [HttpResponse.value?_json stray status (r.fits_toJson 9997), r.toJson_scrubbed]

theorem SummaryRecord.value?_json (stray : StraySpelling) (status : Nat) (t : SummaryRecord) :
    (HttpResponse.json stray status t.toJson).value? = some t.scrubbed.toJson := by
  rw [HttpResponse.value?_json stray status (t.fits_toJson 9995), t.toJson_scrubbed]

/-- A name is read with its stray bytes replaced, as it is when it has been sent. -/
theorem FileRecord.scrubbed_named {r : FileRecord} {name path : Bytes} (h : r.name = name.scrub) :
    ({ r with name := name, path := path } : FileRecord).scrubbed =
      { r.scrubbed with path := path.scrub } := by
  simp only [scrubbed, h, Bytes.scrub_scrub]

/-- A reply with a report is read as its record. -/
theorem Reply.whole?_text (stray : StraySpelling) (r : FileReport) :
    JsonValue.whole? ((Reply.report r).text stray) =
      some (.object [("type", .string "report"), ("data", r.record.scrubbed.toJson)]) := by
  have hfields : ∀ f ∈ [(Bytes.ofString "type", JsonValue.string "report"),
      (Bytes.ofString "data", r.record.toJson)], JsonValue.Fits (JsonValue.mostNested - 1) f.2 := by
    simp only [List.forall_mem_cons]
    exact ⟨.string _ _, r.record.fits_toJson 9996, by simp⟩
  have hread := JsonValue.whole?_document stray .compact (.object hfields)
  simp only [JsonValue.scrubbed, JsonValue.scrubbedFields, Bytes.scrub_ofString,
    FileRecord.toJson_scrubbed] at hread
  exact hread

namespace Service

variable {s : Service} {d : Disk} {dir name patch : Bytes}

/-- A directory holds just one patch, of a name that matches the pattern of the service.  The service
finds it there without a store, if the pattern is one for names, and the path of the directory stays
what it is when it is cleaned and read as a pattern. -/
structure FindsOne (s : Service) (d : Disk) (dir name patch : Bytes) : Prop where
  storeless : s.store = none
  isName : Path.IsName name
  noSlash : Path.slash ∉ s.pattern
  matched : Pattern.matchName s.pattern name = .ok true
  holds : d.HoldsJust dir name patch
  plainPath : d.PlainPath dir
  sameFile : d.stat (Path.join [dir, name]) = d.stat (dir ++ Path.slash :: name)

theorem FindsOne.stat_file (h : s.FindsOne d dir name patch) :
    d.stat (Path.join [dir, name]) = .ok (.file patch) := by
  rw [h.sameFile, h.holds.content]

/-- A run over a directory that holds just one patch. -/
theorem FindsOne.run (h : s.FindsOne d dir name patch) :
    s.run d false ⟨dir, []⟩ =
      (d, .ok ⟨dir, [s.linter.lint (Document.ofText (Path.join [dir, name]) patch)]⟩) := by
  have hload : d.loadPatch (Path.join [dir, name]) =
      .ok (Document.ofText (Path.join [dir, name]) patch) := by
    unfold Disk.loadPatch Disk.fileData
    rw [h.stat_file]
  have hrun : d.run false (s.runRequest ⟨dir, []⟩) =
      (d, .ok ⟨dir, [s.linter.lint (Document.ofText (Path.join [dir, name]) patch)]⟩) := by
    have hpatches : d.patches (s.runRequest ⟨dir, []⟩).dir (s.runRequest ⟨dir, []⟩).pattern =
        .ok [Path.join [dir, name]] := 
      h.holds.patches_eq h.plainPath h.stat_file h.isName h.noSlash h.matched
    have hlinter : Linter.ofOptions (s.runRequest ⟨dir, []⟩).lint = .ok s.linter :=
      Linter.ofOptions_of_known s.linter.skip_known
    have hnone : (s.runRequest ⟨dir, []⟩).store = none := h.storeless
    unfold Disk.run
    rw [hpatches]
    simp only [hlinter, hnone, Linter.lintFiles_none, List.map_cons, List.map_nil, hload,
      Linter.reportOf, Bool.false_eq_true, if_false]
    rfl
  have hne : (FolderRequest.mk dir []).dir.isEmpty = false := by simp [h.holds.dir_ne_nil]
  rw [run_of_dir s d false hne, hrun]
  rfl

/-- The record of a patch that a client sends. -/
def recordOf (s : Service) (q : LintRequest) : FileRecord :=
  (s.linter.lint (Document.ofText q.name q.patch)).record

theorem base_scrub (hname : Path.IsName name) : Path.base name.scrub = name.scrub := by
  refine Path.base_plain (Bytes.scrub_ne_nil hname.ne_nil) fun hslash => ?_
  exact hname.noSlash (Bytes.mem_of_mem_scrub hslash (by decide))

/-- A patch in a directory has the record that it has when it is sent with its name. -/
theorem record_below (s : Service) (hdir : dir ≠ []) (hname : Path.IsName name) (patch : Bytes) :
    (s.linter.lint (Document.ofText (Path.join [dir, name]) patch)).record =
      { s.recordOf ⟨name.scrub, patch⟩ with name := name, path := Path.join [dir, name] } := by
  have hbase : (Document.ofText (Path.join [dir, name]) patch).name = name := by
    rw [Document.name, Document.ofText, Path.join_name hdir hname]
    exact Path.base_lead dir hname.ne_nil hname.noSlash
  have htext : (Document.ofText (Path.join [dir, name]) patch).text =
      (Document.ofText name.scrub patch).text := rfl
  have hlower : (Document.ofText (Path.join [dir, name]) patch).name.lower =
      (Document.ofText name.scrub patch).name.lower := by
    rw [hbase, Document.name, Document.ofText, base_scrub hname, Bytes.lower_scrub]
  have hrecord := s.linter.options.record_report htext hlower
  rw [hbase] at hrecord
  exact hrecord

/-- What a client reads in the answer to a request that names the directory. -/
theorem FindsOne.value?_respond_run (h : s.FindsOne d dir name patch) {body : Bytes}
    (hbody : FolderRequest.ofBody? body = some ⟨dir, []⟩) :
    (s.respond d (.post "/api/run" body)).2.status = 200 ∧
      ∃ t : SummaryRecord, (s.respond d (.post "/api/run" body)).2.value? = some t.toJson ∧
        t.files = [{ (s.recordOf ⟨name.scrub, patch⟩).scrubbed with
          path := (Path.join [dir, name]).scrub }] := by
  have hname : (s.recordOf ⟨name.scrub, patch⟩).name = name.scrub := base_scrub h.isName
  rw [Service.respond_run s d hbody h.run]
  refine ⟨rfl, _, SummaryRecord.value?_json _ _ _, ?_⟩
  simp only [SummaryRecord.scrubbed, Summary.record, List.map_cons, List.map_nil,
    s.record_below h.holds.dir_ne_nil h.isName patch, FileRecord.scrubbed_named hname]

end Service

/-! ### Requests as clients write them -/

theorem JsonValue.fits_pair (k x l y : Bytes) :
    Fits mostNested (object [(k, string x), (l, string y)]) := by
  have hfields : ∀ f ∈ [(k, string x), (l, string y)], Fits (mostNested - 1) f.2 := by
    simp only [List.forall_mem_cons]
    exact ⟨.string _ _, .string _ _, by simp⟩
  exact .object hfields

namespace LintRequest

/-- The value that a client sends to ask about a patch. -/
def toJson (q : LintRequest) : JsonValue :=
  .object [("name", .string q.name), ("patch", .string q.patch)]

theorem ofBody?_page (stray : StraySpelling) (q : LintRequest) :
    ofBody? (q.toJson.page stray) = some ⟨q.name.scrub, q.patch.scrub⟩ := by
  rw [ofBody?, toJson, JsonValue.page, JsonValue.first?_document _ _ (JsonValue.fits_pair _ _ _ _)]
  rfl

theorem ofText_page (stray : StraySpelling) (q : LintRequest) :
    ClientMessage.ofText (Service.lintMessage (q.toJson.page stray)) =
      .ok (.lint ⟨q.name.scrub, q.patch.scrub⟩) := by
  have hread := JsonValue.whole?_document stray .indented
    (JsonValue.fits_pair "name" q.name "patch" q.patch)
  have hflat : 1 < JsonValue.mostNested := by decide
  rw [toJson, JsonValue.page, Service.ofText_lintMessage hread hflat]
  rfl

end LintRequest

namespace FolderRequest

/-- The value that a client sends to ask about a directory. -/
def toJson (q : FolderRequest) : JsonValue :=
  .object [("dir", .string q.dir), ("pattern", .string q.pattern)]

theorem ofBody?_page (stray : StraySpelling) (q : FolderRequest) :
    ofBody? (q.toJson.page stray) = some ⟨q.dir.scrub, q.pattern.scrub⟩ := by
  rw [ofBody?, toJson, JsonValue.page, JsonValue.first?_document _ _ (JsonValue.fits_pair _ _ _ _)]
  rfl

end FolderRequest

/-! ### The three ways -/

/-- **The service and a run over a directory agree.**  A patch that is sent as the body of a request,
sent as a message, or left alone in a directory has one record in what a client reads from all three
answers, except for its path.  Every request that a client writes, however it spells stray bytes, is
read as it is meant.  And any data are answered with a report in the one way exactly if they are in the
other. -/
theorem service_and_run_agree (s : Service) (d : Disk) (session : Session) :
    (∀ dir name patch lintBody message runBody : Bytes, s.FindsOne d dir name patch → patch ≠ [] →
      LintRequest.ofBody? lintBody = some ⟨name.scrub, patch⟩ →
      ClientMessage.ofText message = .ok (.lint ⟨name.scrub, patch⟩) →
      FolderRequest.ofBody? runBody = some ⟨dir, []⟩ →
      let sent := (s.respond d (.post "/api/lint" lintBody)).2
      let reply := (s.reply d session message).2.2
      let found := (s.respond d (.post "/api/run" runBody)).2
      let file := (s.recordOf ⟨name.scrub, patch⟩).scrubbed
      sent.status = 200 ∧ sent.value? = some file.toJson ∧
        JsonValue.whole? (reply.text s.strayBytes) =
          some (.object [("type", .string "report"), ("data", file.toJson)]) ∧
        found.status = 200 ∧ ∃ t : SummaryRecord, found.value? = some t.toJson ∧
          t.files = [{ file with path := (Path.join [dir, name]).scrub }]) ∧
    (∀ (stray : StraySpelling) (dir name patch : Bytes), dir.isUtf8 = true → patch.isUtf8 = true →
      let sent := (LintRequest.toJson ⟨name, patch⟩).page stray
      LintRequest.ofBody? sent = some ⟨name.scrub, patch⟩ ∧
        ClientMessage.ofText (Service.lintMessage sent) = .ok (.lint ⟨name.scrub, patch⟩) ∧
        FolderRequest.ofBody? ((FolderRequest.toJson ⟨dir, []⟩).page stray) = some ⟨dir, []⟩) ∧
    ∀ (text : Bytes) (v : JsonValue), JsonValue.whole? text = some v →
      v.nesting < JsonValue.mostNested →
      ((s.respond d (.post "/api/lint" text)).2.status = 200 ↔
        ∃ r, (s.reply d session (Service.lintMessage text)).2.2 = .report r) := by
  refine ⟨?_, ?_, ?_⟩
  · intro dir name patch lintBody message runBody hone hpatch hlint hmessage hrun sent reply found file
    have hname : name.scrub ≠ [] := Bytes.scrub_ne_nil hone.isName.ne_nil
    have hreport : s.lint ⟨name.scrub, patch⟩ = .ok _ := s.lint_of_patch hname hpatch
    have hreply : reply = _ :=
      (s.reply_eq_report_iff d session message _).mpr ⟨_, hmessage, hreport⟩
    have hsent : sent = .json s.strayBytes 200 (s.recordOf ⟨name.scrub, patch⟩).toJson := by
      show (s.respond d (.post "/api/lint" lintBody)).2 = _
      rw [Service.respond_lint, hlint]
      simp only [hreport]
      rfl
    rw [hsent, hreply]
    exact ⟨rfl, FileRecord.value?_json _ _ _, Reply.whole?_text _ _, hone.value?_respond_run hrun⟩
  · intro stray dir name patch hdir hpatch sent
    have hlint := LintRequest.ofBody?_page stray ⟨name, patch⟩
    have hmessage := LintRequest.ofText_page stray ⟨name, patch⟩
    have hrun := FolderRequest.ofBody?_page stray ⟨dir, []⟩
    simp only [Bytes.scrub_of_isUtf8 hpatch] at hlint hmessage
    simp only [Bytes.scrub_of_isUtf8 hdir] at hrun
    exact ⟨hlint, hmessage, hrun⟩
  · intro text v hread hnesting
    have hbody : LintRequest.ofBody? text = LintRequest.ofJson? v := by
      obtain ⟨rest, hfirst, -⟩ := JsonValue.read_of_whole? hread
      have hfirst : JsonValue.first? text = some (v, rest) := hfirst
      rw [LintRequest.ofBody?, hfirst, Option.bind_some]
    have hmessage := Service.ofText_lintMessage hread hnesting
    rw [Service.status_respond_lint, hbody]
    simp only [Service.reply_eq_report_iff, hmessage]
    cases LintRequest.ofJson? v with
    | none => simp
    | some q =>
      cases hq : s.lint q <;> simp [hq]

/-- A file name with a stray byte, which no message can spell. -/
def strayName : Bytes := Bytes.ofString "Branding-" ++ 0xFF :: Bytes.ofString ".patch"

/-- A patch that uses an old term. -/
def chromePatch : Bytes := "@@ x\r\n+Chrome\r\n"

/-- A folder, reached by a path that is not clean, with one patch in it. -/
def singleDisk : Disk :=
  ⟨[(["work"], .folder), (["work", "q"], .folder),
    (["work", "q", strayName], .file chromePatch)], ["work"]⟩

theorem singleDisk_findsOne :
    standardService.FindsOne singleDisk "./q/" strayName chromePatch where
  storeless := rfl
  isName := ⟨by decide, by decide, by decide, by decide⟩
  noSlash := by decide
  matched := by decide +kernel
  holds := ⟨by decide +kernel, by decide +kernel, by decide +kernel⟩
  plainPath := ⟨by decide +kernel, by decide +kernel⟩
  sameFile := by decide +kernel

theorem service_and_run_agree_stray :
    let file := (standardService.recordOf ⟨strayName.scrub, chromePatch⟩).scrubbed
    standardService.FindsOne singleDisk "./q/" strayName chromePatch ∧ file.valid = false ∧
      (standardService.respond singleDisk (.post "/api/lint"
        ((LintRequest.toJson ⟨strayName, chromePatch⟩).page .escape))).2.value? = some file.toJson ∧
      ∃ t : SummaryRecord, (standardService.respond singleDisk (.post "/api/run"
          ((FolderRequest.toJson ⟨"./q/", []⟩).page .escape))).2.value? = some t.toJson ∧
        t.files = [{ file with path := "q/Branding-\uFFFD.patch" }] := by
  intro file
  obtain ⟨hways, hwritten, -⟩ := service_and_run_agree standardService singleDisk {}
  obtain ⟨hlint, hmessage, hrun⟩ := hwritten .escape "./q/" strayName chromePatch
    (by decide +kernel) (by decide +kernel)
  obtain ⟨-, hsent, -, -, hfound⟩ :=
    hways _ _ _ _ _ _ singleDisk_findsOne (by decide) hlint hmessage hrun
  have hpath : (Path.join ["./q/", strayName]).scrub = Bytes.ofString "q/Branding-\uFFFD.patch" := by
    decide +kernel
  rw [hpath] at hfound
  exact ⟨singleDisk_findsOne, by decide +kernel, hsent, hfound⟩

/-- A folder whose name is read as a pattern and a folder next to where a link leads, each with one
patch in it. -/
def oddDisk : Disk :=
  ⟨[(["p[1]"], .folder), (["p[1]", "a.patch"], .file "x"), (["l"], .link "x/y"), (["x"], .folder),
    (["x", "y"], .folder), (["x", "q"], .folder), (["x", "q", "a.patch"], .file "x")], []⟩

/-- A service whose pattern has a slash inside a bracket. -/
def slashService : Service := { standardService with pattern := "[^/]*.patch" }

/-- The only patch of a folder is not found if the path of the folder has a special byte, if cleaning
the path changes where it leads, or if the pattern has a slash. -/
theorem run_misses_only_patch :
    (oddDisk.HoldsJust "p[1]" "a.patch" "x" ∧
      Pattern.matchName standardService.pattern "a.patch" = .ok true ∧
      (standardService.respond oddDisk (.post "/api/lint"
        "\x7b\"name\":\"a.patch\",\"patch\":\"x\"\x7d")).2.status = 200 ∧
      (standardService.respond oddDisk (.post "/api/run" "\x7b\"dir\":\"p[1]\"\x7d")).2 =
        .error .escape 404 "no patch files found in p[1] matching \"*.patch\"") ∧
    (oddDisk.HoldsJust "l/../q" "a.patch" "x" ∧
      (standardService.respond oddDisk (.post "/api/run" "\x7b\"dir\":\"l/../q\"\x7d")).2 =
        .error .escape 404 "no patch files found in l/../q matching \"*.patch\"") ∧
    oddDisk.HoldsJust "x/q" "a.patch" "x" ∧
      Pattern.matchName slashService.pattern "a.patch" = .ok true ∧
      (slashService.respond oddDisk (.post "/api/run" "\x7b\"dir\":\"x/q\"\x7d")).2 =
        .error .escape 400 "invalid pattern \"[^/]*.patch\": syntax error in pattern" := by
  refine ⟨⟨⟨?_, ?_, ?_⟩, ?_, ?_, ?_⟩, ⟨⟨?_, ?_, ?_⟩, ?_⟩, ⟨?_, ?_, ?_⟩, ?_, ?_⟩ <;> decide +kernel

end PatchAudit
