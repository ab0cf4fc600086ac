import Mathlib.Data.List.Basic
import PatchAudit.Run.Basic

/-!
# Workers on the patches of a run

Each patch of a run has a worker of its own, which looks whether the run is cancelled, reads the
patch, looks for its report in the store, checks the patch, stores the report and fills its slot.
Workers are started in the order of the patches, at most `Batch.limit` are busy at a time, and their
steps come in any order; the run may be cancelled between any two of them.  A schedule is the list of
the moves that are made.

Every schedule comes to an end: each move brings the run nearer to it (`Batch.follow_length`), and
until all workers have ended one of them can move on (`Batch.exists_move`, `Batch.exists_ended`).
-/

namespace PatchAudit

/-! ### Workers -/

/-- How far a worker is. -/
inductive WorkStage where
  | waiting
  | started
  | loading
  | looking (doc : Document)
  | checking (doc : Document)
  | storing (doc : Document) (report : FileReport)
  | writing (report : FileReport)
  | finished
  /-- The worker found the run cancelled. -/
  | stopped
  deriving DecidableEq, Repr

namespace WorkStage

/-- The number of steps that are left, the start of the worker among them. -/
def left : WorkStage → Nat
  | waiting => 7
  | started => 6
  | loading => 5
  | looking _ => 4
  | checking _ => 3
  | storing _ _ => 2
  | writing _ => 1
  | finished => 0
  | stopped => 0

def isWaiting : WorkStage → Bool
  | waiting => true
  | _ => false

theorem eq_waiting {s : WorkStage} (h : s.isWaiting = true) : s = waiting := by
  cases s <;> first | rfl | cases h

def isStopped : WorkStage → Bool
  | stopped => true
  | _ => false

theorem eq_stopped {s : WorkStage} (h : s.isStopped = true) : s = stopped := by
  cases s <;> first | rfl | cases h

def isEnded : WorkStage → Bool
  | finished => true
  | stopped => true
  | _ => false

/-- Whether the worker counts towards the limit. -/
def isActive (s : WorkStage) : Bool := !s.isWaiting && !s.isEnded

end WorkStage

/-- The worker of one patch, with the slot that its report goes to. -/
structure Worker where
  path : Bytes
  stage : WorkStage := .waiting
  slot : Option FileReport := none
  deriving DecidableEq, Repr

/-- The number of steps that workers have left together. -/
def Worker.allLeft : List Worker → Nat
  | [] => 0
  | w :: rest => w.stage.left + allLeft rest

/-- Trouble with the store that a step runs into for a reason outside the file tree. -/
structure Trouble where
  get : Bool := false
  put : PutStep → Bool := fun _ => false

/-- What the workers of a run share. -/
structure Batch where
  linter : Linter
  store : Option Store
  /-- The number of workers that may be busy at a time. -/
  limit : Nat

namespace Batch

/-- The report that the store has of a patch.  A store that fails has none. -/
def find? (b : Batch) (t : Trouble) (d : Disk) (doc : Document) : Option FileReport :=
  match b.store with
  | none => none
  | some s =>
    if t.get then none
    else
      match s.get d (StoreKey.of doc.name doc.text b.linter.options)
        { path := doc.path, name := doc.name } with
      | .ok found => found
      | .error _ => none

/-- The disk after a report was handed to the store. -/
def keep (b : Batch) (t : Trouble) (d : Disk) (doc : Document) (report : FileReport) : Disk :=
  match b.store with
  | none => d
  | some s => (s.putWith t.put d (StoreKey.of doc.name doc.text b.linter.options) report).1

/-- The next step of a busy worker: the disk afterwards, and the worker. -/
def step (b : Batch) (t : Trouble) (halted : Bool) (d : Disk) (w : Worker) : Option (Disk × Worker) :=
  match w.stage with
  | .started => some (d, { w with stage := if halted then .stopped else .loading })
  | .loading =>
    match d.loadPatch w.path with
    | .error why =>
      some (d, { w with stage := .writing (.unreadable w.path (Path.base w.path) why.message) })
    | .ok doc => some (d, { w with stage := .looking doc })
  | .looking doc =>
    match b.find? t d doc with
    | some found => some (d, { w with stage := .writing found })
    | none => some (d, { w with stage := .checking doc })
  | .checking doc => some (d, { w with stage := .storing doc (b.linter.lint doc) })
  | .storing doc report => some (b.keep t d doc report, { w with stage := .writing report })
  | .writing report => some (d, { w with stage := .finished, slot := some report })
  | _ => none

end Batch

/-! ### Schedules -/

/-- How far a run is. -/
structure Progress where
  disk : Disk
  workers : List Worker
  cancelled : Bool := false
  deriving DecidableEq, Repr

namespace Progress

/-- The number of busy workers. -/
def active (p : Progress) : Nat := p.workers.countP fun w => w.stage.isActive

/-- Whether a worker returned an error. -/
def failed (p : Progress) : Bool := p.workers.any fun w => w.stage.isStopped

/-- Whether a worker that looks finds the run cancelled, by its caller or by the failure of another
worker. -/
def halted (p : Progress) : Bool := p.cancelled || p.failed

def ended (p : Progress) : Bool := p.workers.all fun w => w.stage.isEnded

/-- The number of moves that can be made at most. -/
def left (p : Progress) : Nat := Worker.allLeft p.workers + if p.cancelled then 0 else 1

/-- The answer once all workers have ended.  A slot that nothing was written to holds an empty
report. -/
def answer (p : Progress) (dir : Bytes) : Except RunError Summary :=
  if p.failed then .error .cancelled
  else .ok ⟨dir, p.workers.map fun w => w.slot.getD { path := [], name := [] }⟩

end Progress

/-- What can happen next in a run. -/
inductive Move where
  | cancel
  /-- The next worker is started. -/
  | launch
  /-- A worker makes a step. -/
  | advance (i : Nat) (t : Trouble)

namespace Batch

/-- One move of a run, if it can be made. -/
def move? (b : Batch) (p : Progress) : Move → Option Progress
  | .cancel => if p.cancelled then none else some { p with cancelled := true }
  | .launch =>
    let i := p.workers.findIdx fun w => w.stage.isWaiting
    match p.workers[i]? with
    | none => none
    | some w =>
      if p.active < b.limit then
        some { p with workers := p.workers.set i { w with stage := .started } }
      else none
  | .advance i t =>
    match p.workers[i]? with
    | none => none
    | some w =>
      match b.step t p.halted p.disk w with
      | none => none
      | some (d, w) => some { p with disk := d, workers := p.workers.set i w }

/-- The run after the moves of a schedule, if they can be made one after the other. -/
def follow (b : Batch) (p : Progress) : List Move → Option Progress
  | [] => some p
  | m :: rest =>
    match b.move? p m with
    | none => none
    | some p => b.follow p rest

/-! ### What a move does -/

/-- The steps of a worker, one after the other. -/
inductive Steps (b : Batch) (t : Trouble) (halted : Bool) (d : Disk) (w : Worker) :
    Disk → Worker → Prop where
  | check (hstage : w.stage = .started) :
      Steps b t halted d w d { w with stage := if halted then .stopped else .loading }
  | refuse {why : LoadError} (hstage : w.stage = .loading) (hload : d.loadPatch w.path = .error why) :
      Steps b t halted d w d
        { w with stage := .writing (.unreadable w.path (Path.base w.path) why.message) }
  | load {doc : Document} (hstage : w.stage = .loading) (hload : d.loadPatch w.path = .ok doc) :
      Steps b t halted d w d { w with stage := .looking doc }
  | find {doc : Document} {found : FileReport} (hstage : w.stage = .looking doc)
      (hfind : b.find? t d doc = some found) :
      Steps b t halted d w d { w with stage := .writing found }
  | miss {doc : Document} (hstage : w.stage = .looking doc) (hfind : b.find? t d doc = none) :
      Steps b t halted d w d { w with stage := .checking doc }
  | lint {doc : Document} (hstage : w.stage = .checking doc) :
      Steps b t halted d w d { w with stage := .storing doc (b.linter.lint doc) }
  | keep {doc : Document} {report : FileReport} (hstage : w.stage = .storing doc report) :
      Steps b t halted d w (b.keep t d doc report) { w with stage := .writing report }
  | write {report : FileReport} (hstage : w.stage = .writing report) :
      Steps b t halted d w d { w with stage := .finished, slot := some report }

variable {b : Batch} {t : Trouble} {halted : Bool} {d d' : Disk} {w w' : Worker}

theorem steps_of_step (h : b.step t halted d w = some (d', w')) : b.Steps t halted d w d' w' := by
  unfold step at h
  split at h
  · rename_i hstage
    cases h
    exact .check hstage
  · rename_i hstage
    split at h
    · rename_i hload
      cases h
      exact .refuse hstage hload
    · rename_i hload
      cases h
      exact .load hstage hload
  · rename_i hstage
    split at h
    · rename_i hfind
      cases h
      exact .find hstage hfind
    · rename_i hfind
      cases h
      exact .miss hstage hfind
  · rename_i hstage
    cases h
    exact .lint hstage
  · rename_i hstage
    cases h
    exact .keep hstage
  · rename_i hstage
    cases h
    exact .write hstage
  · cases h

/-- A busy worker can make its step. -/
theorem exists_step (t : Trouble) (halted : Bool) (d : Disk) (hactive : w.stage.isActive = true) :
    ∃ d' w', b.step t halted d w = some (d', w') := by
  unfold step
  split
  · exact ⟨_, _, rfl⟩
  · split
    · exact ⟨_, _, rfl⟩
    · exact ⟨_, _, rfl⟩
  · split
    · exact ⟨_, _, rfl⟩
    · exact ⟨_, _, rfl⟩
  · exact ⟨_, _, rfl⟩
  · exact ⟨_, _, rfl⟩
  · exact ⟨_, _, rfl⟩
  · cases hstage : w.stage <;> simp_all [WorkStage.isActive, WorkStage.isWaiting, WorkStage.isEnded]

theorem Steps.path (h : b.Steps t halted d w d' w') : w'.path = w.path := by
  cases h <;> rfl

theorem Steps.left_lt (h : b.Steps t halted d w d' w') : w'.stage.left < w.stage.left := by
  cases h with
  | check hstage =>
    rw [hstage]
    cases halted <;> simp [WorkStage.left]
  | refuse hstage | load hstage | find hstage | miss hstage | lint hstage | keep hstage
  | write hstage =>
    rw [hstage]
    simp [WorkStage.left]

theorem Steps.active (h : b.Steps t halted d w d' w') : w.stage.isActive = true := by
  cases h with
  | check hstage | refuse hstage | load hstage | find hstage | miss hstage | lint hstage | keep hstage
  | write hstage =>
    rw [hstage]
    rfl

/-- All that a move can do. -/
theorem move_cases {p p' : Progress} {m : Move} (h : b.move? p m = some p') :
    (m = .cancel ∧ p.cancelled = false ∧ p' = { p with cancelled := true }) ∨
    (m = .launch ∧ ∃ i w, p.workers[i]? = some w ∧ w.stage = .waiting ∧ p.active < b.limit ∧
      p' = { p with workers := p.workers.set i { w with stage := .started } }) ∨
    (∃ i t w d' w', m = .advance i t ∧ p.workers[i]? = some w ∧
      b.Steps t p.halted p.disk w d' w' ∧
      p' = { p with disk := d', workers := p.workers.set i w' }) := by
  cases m with
  | cancel =>
    simp only [move?] at h
    split_ifs at h with hcancelled
    refine .inl ⟨rfl, by simpa using hcancelled, ?_⟩
    simpa using h.symm
  | launch =>
    simp only [move?] at h
    split at h
    · cases h
    · rename_i w hw
      split_ifs at h with hlimit
      have hwaiting : w.stage = .waiting := by
        obtain ⟨hlt, rfl⟩ := List.getElem?_eq_some_iff.mp hw
        exact WorkStage.eq_waiting (List.findIdx_getElem (w := hlt))
      exact .inr (.inl ⟨rfl, _, w, hw, hwaiting, hlimit, by simpa using h.symm⟩)
  | advance i t =>
    simp only [move?] at h
    split at h
    · cases h
    · rename_i w hw
      split at h
      · cases h
      · rename_i d' w' hstep
        exact .inr (.inr ⟨i, t, w, d', w', rfl, hw, steps_of_step hstep, by simpa using h.symm⟩)

/-! ### What every schedule keeps -/

variable {p p' : Progress} {m : Move} {ms : List Move}

theorem follow_cons : b.follow p (m :: ms) = some p' ↔
    ∃ q, b.move? p m = some q ∧ b.follow q ms = some p' := by
  rw [follow]
  cases b.move? p m with
  | none => simp
  | some q => simp

/-- What every move keeps holds after a schedule. -/
theorem follow_invariant {I : Progress → Prop}
    (hmove : ∀ {p p' m}, I p → b.move? p m = some p' → I p') (hp : I p)
    (h : b.follow p ms = some p') : I p' := by
  induction ms generalizing p with
  | nil =>
    cases h
    exact hp
  | cons m rest ih =>
    obtain ⟨q, hfirst, hrest⟩ := follow_cons.mp h
    exact ih (hmove hp hfirst) hrest

theorem paths_set {ws : List Worker} {i : Nat} (hw : ws[i]? = some w) (hpath : w'.path = w.path) :
    (ws.set i w').map Worker.path = ws.map Worker.path := by
  obtain ⟨hlt, rfl⟩ := List.getElem?_eq_some_iff.mp hw
  have hlt' : i < (ws.map Worker.path).length := by simpa using hlt
  have hsame : ws[i].path = (ws.map Worker.path)[i] := by simp
  rw [List.map_set, hpath, hsame, List.set_getElem_self hlt']

theorem follow_paths (h : b.follow p ms = some p') :
    p'.workers.map Worker.path = p.workers.map Worker.path := by
  refine follow_invariant (I := fun q => q.workers.map Worker.path = p.workers.map Worker.path)
    ?_ rfl h
  intro q q' m hq hmove
  obtain ⟨-, -, rfl⟩ | ⟨-, i, w, hw, -, -, rfl⟩ | ⟨i, t, w, d', w', -, hw, hsteps, rfl⟩ :=
    move_cases hmove
  · exact hq
  · exact (paths_set hw (by rfl)).trans hq
  · exact (paths_set hw hsteps.path).trans hq

theorem countP_set_le {α : Type} {f : α → Bool} {l : List α} {i : Nat} {x y : α} (hx : l[i]? = some x)
    (h : f x = true) : (l.set i y).countP f ≤ l.countP f := by
  obtain ⟨hlt, rfl⟩ := List.getElem?_eq_some_iff.mp hx
  have hpos : 0 < l.countP f := List.countP_pos_iff.mpr ⟨l[i], List.getElem_mem hlt, h⟩
  rw [List.countP_set hlt, if_pos h]
  split_ifs <;> omega

/-- **At most `limit` workers are busy at a time.** -/
theorem follow_active (hp : p.active ≤ b.limit) (h : b.follow p ms = some p') :
    p'.active ≤ b.limit := by
  refine follow_invariant (I := fun q => q.active ≤ b.limit) ?_ hp h
  intro q q' m hq hmove
  obtain ⟨-, -, rfl⟩ | ⟨-, i, w, hw, hwaiting, hlimit, rfl⟩ | ⟨i, t, w, d', w', -, hw, hsteps, rfl⟩ :=
    move_cases hmove
  · exact hq
  · obtain ⟨hlt, rfl⟩ := List.getElem?_eq_some_iff.mp hw
    unfold Progress.active at hlimit ⊢
    rw [List.countP_set hlt]
    split_ifs <;> omega
  · exact Nat.le_trans (countP_set_le hw hsteps.active) hq

/-- Only the move that cancels a run cancels it. -/
theorem follow_cancelled (hms : Move.cancel ∉ ms)
    (h : b.follow p ms = some p') : p'.cancelled = p.cancelled := by
  induction ms generalizing p with
  | nil =>
    cases h
    rfl
  | cons m rest ih =>
    obtain ⟨hm, hrest⟩ := not_or.mp (mt List.mem_cons.mpr hms)
    obtain ⟨q, hmove, hfollow⟩ := follow_cons.mp h
    rw [ih hrest hfollow]
    obtain ⟨rfl, -⟩ | ⟨-, i, w, -, -, -, rfl⟩ | ⟨i, t, w, d', w', -, -, -, rfl⟩ := move_cases hmove
    · exact absurd rfl hm
    · rfl
    · rfl

/-! ### Every schedule comes to an end -/

theorem allLeft_set_lt {ws : List Worker} {i : Nat} (hw : ws[i]? = some w)
    (h : w'.stage.left < w.stage.left) : Worker.allLeft (ws.set i w') < Worker.allLeft ws := by
  induction ws generalizing i with
  | nil => cases hw
  | cons x ws ih =>
    cases i with
    | zero =>
      cases hw
      exact Nat.add_lt_add_right h _
    | succ i => exact Nat.add_lt_add_left (ih hw) _

theorem allLeft_waiting (paths : List Bytes) :
    Worker.allLeft (paths.map fun path => { path }) = 7 * paths.length := by
  induction paths with
  | nil => rfl
  | cons path rest ih =>
    rw [List.map_cons, Worker.allLeft, ih, List.length_cons, WorkStage.left]
    omega

theorem move_left_lt (h : b.move? p m = some p') : p'.left < p.left := by
  unfold Progress.left
  obtain ⟨-, hcancelled, rfl⟩ | ⟨-, i, w, hw, hwaiting, -, rfl⟩ | ⟨i, t, w, d', w', -, hw, hsteps, rfl⟩ :=
    move_cases h
  · simp [hcancelled]
  · have hlt : WorkStage.started.left < w.stage.left := by
      rw [hwaiting]
      decide
    exact Nat.add_lt_add_right (allLeft_set_lt hw hlt) _
  · exact Nat.add_lt_add_right (allLeft_set_lt hw hsteps.left_lt) _

/-- **No schedule goes on for ever**: each move leaves fewer that can follow. -/
theorem follow_length (h : b.follow p ms = some p') : p'.left + ms.length ≤ p.left := by
  induction ms generalizing p with
  | nil =>
    cases h
    simp
  | cons m rest ih =>
    obtain ⟨q, hfirst, hrest⟩ := follow_cons.mp h
    have hle := ih hrest
    have hlt := move_left_lt hfirst
    rw [List.length_cons]
    omega

/-- A run whose workers have not all ended can go on. -/
theorem exists_move (hlimit : 1 ≤ b.limit) (hended : p.ended = false) :
    ∃ m p', m ≠ .cancel ∧ b.move? p m = some p' := by
  by_cases hactive : ∃ w ∈ p.workers, w.stage.isActive = true
  · obtain ⟨w, hw, hactive⟩ := hactive
    obtain ⟨i, hi⟩ := List.getElem?_of_mem hw
    obtain ⟨d', w', hstep⟩ := b.exists_step {} p.halted p.disk hactive
    refine ⟨.advance i {}, { p with disk := d', workers := p.workers.set i w' }, by simp, ?_⟩
    simp only [move?, hi, hstep]
  · -- no worker is busy, so one is waiting and there is room for it
    have hnone : p.active = 0 := by
      rw [Progress.active, List.countP_eq_zero]
      exact fun w hw hbusy => hactive ⟨w, hw, hbusy⟩
    have hwaiting : ∃ w ∈ p.workers, w.stage.isWaiting = true := by
      obtain ⟨w, hw, hended⟩ := List.all_eq_false.mp hended
      refine ⟨w, hw, ?_⟩
      have hidle : w.stage.isActive ≠ true := fun hbusy => hactive ⟨w, hw, hbusy⟩
      simpa [WorkStage.isActive, hended] using hidle
    have hlt := List.findIdx_lt_length.mpr hwaiting
    have hroom : p.active < b.limit := by omega
    have hlaunch : (b.move? p .launch).isSome = true := by
      simp only [move?, List.getElem?_eq_getElem hlt, if_pos hroom, Option.isSome_some]
    obtain ⟨p', hp'⟩ := Option.isSome_iff_exists.mp hlaunch
    exact ⟨.launch, p', by simp, hp'⟩

/-- **Every run can be brought to its end**, without cancelling it. -/
theorem exists_ended (hlimit : 1 ≤ b.limit) (p : Progress) :
    ∃ ms p', Move.cancel ∉ ms ∧ b.follow p ms = some p' ∧ p'.ended = true := by
  induction hn : p.left using Nat.strongRecOn generalizing p with
  | _ n ih =>
    cases hended : p.ended with
    | true => exact ⟨[], p, by simp, rfl, hended⟩
    | false =>
      obtain ⟨m, q, hm, hmove⟩ := exists_move hlimit hended
      obtain ⟨ms, p', hms, hfollow, hended'⟩ := ih q.left (hn ▸ move_left_lt hmove) q rfl
      refine ⟨m :: ms, p', ?_, follow_cons.mpr ⟨q, hmove, hfollow⟩, hended'⟩
      simp [hms, Ne.symm hm]

end Batch

end PatchAudit
