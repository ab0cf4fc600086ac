import Mathlib.Data.List.Basic
import PatchAudit.Browser.View

/-!
# The state of the browser

Whatever happens to a browser, the selected patch is one of the list, the first line on the screen is
one of the patch, and the lines are those of the document that the loader gave when the patch was
selected (`browser_keeps_its_place`).  The loader may change from one event to the next, so each
event comes with the loader of its time, and the calls of the loader are written down.

That no place outside a list is ever looked at is said by running the browser with lists that refuse
such places: `Browser.update?` and `Browser.view?` go through the same places one by one and fail at
the first one that is not there.
-/

namespace PatchAudit

namespace Browser

variable {lexers : Lexers}

/-! ### Places of lines -/

/-- Whether there is a line at a place for which `p` holds. -/
def holdsAt (lines : List ShownLine) (p : ShownLine → Bool) (i : Nat) : Bool := (lines[i]?).any p

/-- The places below the first line on the screen, downwards. -/
def placesBelow (b : Browser) : List Nat :=
  List.range' (b.offset + 1) (b.lines.length - (b.offset + 1))

/-- The places above the first line on the screen, upwards. -/
def placesAbove (b : Browser) : List Nat := (List.range b.offset).reverse

theorem mem_placesBelow {b : Browser} {i : Nat} :
    i ∈ b.placesBelow ↔ b.offset < i ∧ i < b.lines.length := by
  rw [placesBelow, List.mem_range'_1]
  omega

theorem mem_placesAbove {b : Browser} {i : Nat} : i ∈ b.placesAbove ↔ i < b.offset := by
  rw [placesAbove, List.mem_reverse, List.mem_range]

theorem find?_range'_holdsAt (lines : List ShownLine) (p : ShownLine → Bool) (k : Nat) :
    (List.range' k (lines.length - k)).find? (holdsAt lines p) =
      ((lines.drop k).findIdx? p).map (k + ·) := by
  induction hn : lines.length - k generalizing k with
  | zero => rw [List.drop_eq_nil_of_le (by omega)]; rfl
  | succ n ih =>
    have hk : k < lines.length := by omega
    rw [List.range'_succ, List.find?_cons, List.drop_eq_getElem_cons hk, List.findIdx?_cons,
      ih (k + 1) (by omega)]
    have hline : holdsAt lines p k = p lines[k] := by simp [holdsAt, hk]
    rw [hline]
    cases p lines[k] with
    | true => simp
    | false =>
      simp only [Bool.false_eq_true, if_false, Option.map_map]
      congr 1
      funext i
      simp only [Function.comp_apply]
      omega

theorem find?_range_reverse_holdsAt {lines : List ShownLine} (p : ShownLine → Bool) {k : Nat}
    (hk : k ≤ lines.length) :
    (List.range k).reverse.find? (holdsAt lines p) =
      ((lines.take k).reverse.findIdx? p).map (k - 1 - ·) := by
  induction k with
  | zero => rfl
  | succ k ih =>
    have hlt : k < lines.length := by omega
    rw [List.range_succ, List.reverse_append, List.reverse_singleton, List.singleton_append,
      List.find?_cons, List.take_succ_eq_append_getElem hlt, List.reverse_append,
      List.reverse_singleton, List.singleton_append, List.findIdx?_cons, ih (by omega)]
    have hline : holdsAt lines p k = p lines[k] := by simp [holdsAt, hlt]
    rw [hline]
    cases p lines[k] with
    | true => simp
    | false =>
      simp only [Bool.false_eq_true, if_false, Option.map_map]
      congr 1
      funext i
      simp only [Function.comp_apply]
      omega

/-- A jump downwards ends at the first place below for which the test holds. -/
theorem jumpForward_eq (b : Browser) (p : ShownLine → Bool) :
    b.jumpForward p =
      { b with offset := (b.placesBelow.find? (holdsAt b.lines p)).getD b.offset } := by
  rw [placesBelow, find?_range'_holdsAt, jumpForward]
  cases (b.lines.drop (b.offset + 1)).findIdx? p <;> rfl

/-- A jump upwards ends at the first place above for which the test holds. -/
theorem jumpBack_eq {b : Browser} (h : b.offset ≤ b.lines.length) (p : ShownLine → Bool) :
    b.jumpBack p =
      { b with offset := (b.placesAbove.find? (holdsAt b.lines p)).getD b.offset } := by
  rw [placesAbove, find?_range_reverse_holdsAt p h, jumpBack]
  cases (b.lines.take b.offset).reverse.findIdx? p <;> rfl

/-! ### Lists that refuse places outside -/

/-- Looks at the lines at places in order, up to the first one for which `p` holds.  Fails at a place
where there is no line. -/
def seek? (lines : List ShownLine) (p : ShownLine → Bool) : List Nat → Option (Option Nat)
  | [] => some none
  | i :: rest =>
    match lines[i]? with
    | none => none
    | some l => if p l then some (some i) else seek? lines p rest

/-- Scrolls to the first of some places for which `p` holds. -/
def jump? (b : Browser) (p : ShownLine → Bool) (places : List Nat) : Option Browser :=
  (seek? b.lines p places).map fun found => { b with offset := found.getD b.offset }

/-- The selected report, which is looked up if there are reports at all.  Fails if there is none at
the selected place. -/
def selected? (b : Browser) : Option (Option FileReport) :=
  if b.reports.isEmpty then some none else (b.reports[b.index]?).map some

/-- Loads the selected patch. -/
def reload? (lexers : Lexers) (load : Loader) (b : Browser) : Option Browser :=
  match b.selected? with
  | none => none
  | some none => some { b with lines := [], loadError := none }
  | some (some r) =>
    match load r.path with
    | .ok doc => some { b with lines := ShownLine.ofDocument lexers doc r, loadError := none }
    | .error why => some { b with lines := [], loadError := some why }

/-- Carries out an action.  Those that are not listed look at no report and at no line. -/
def act? (lexers : Lexers) (load : Loader) (b : Browser) : Action → Option Browser
  | .nextPatch =>
    if b.index + 1 < b.reports.length then
      ({ b with index := b.index + 1, offset := 0 } : Browser).reload? lexers load
    else some b
  | .previousPatch =>
    if 0 < b.index then ({ b with index := b.index - 1, offset := 0 } : Browser).reload? lexers load
    else some b
  | .nextIssue => b.jump? ShownLine.hasIssue b.placesBelow
  | .previousIssue => b.jump? ShownLine.hasIssue b.placesAbove
  | .nextHunk => b.jump? ShownLine.isHunk b.placesBelow
  | .previousHunk => b.jump? ShownLine.isHunk b.placesAbove
  | a => some (b.act lexers load a)

/-- The browser after an event. -/
def update? (lexers : Lexers) (load : Loader) (b : Browser) : BrowserEvent → Option (Browser × Bool)
  | .resize width height => some (b.update lexers load (.resize width height))
  | .press key =>
    match Action.ofKey? key with
    | some a => (b.act? lexers load a).map fun next => (next, a == .quit)
    | none => some (b, false)

/-- The lines of the selected patch that are on the screen. -/
def visible? (b : Browser) (room : Int) : Option (List ShownLine) :=
  let stop := min (b.offset + (max room 1).toNat) b.lines.length
  (List.range' b.offset (stop - b.offset)).mapM (b.lines[·]?)

/-- The text of the panel for the selected patch. -/
def patchText? (b : Browser) : Option Bytes :=
  match b.selected? with
  | none => none
  | some none => some "No patches"
  | some (some r) =>
    match b.loadError with
    | some why => some (patchHead r ++ ({} : Box).render ("cannot show patch: " ++ why))
    | none =>
      (b.visible? (b.panelHeight - (2 + (fileIssues r).length))).map fun shown =>
        patchHead r ++ Bytes.join "\n" (shown.map fun l => l.render (b.patchWidth - 4))

/-- What is on the screen. -/
def view? (b : Browser) : Option Bytes :=
  if b.width = 0 ∨ b.height = 0 then some "Loading..."
  else if b.help then some helpText
  else
    b.patchText?.map fun text =>
      Bytes.join "\n" (Layout.above
        [Layout.beside [b.listPanel.lines b.listText, [" "], b.patchPanel.lines text],
          b.statusBox.lines b.statusText])

theorem seek?_eq {lines : List ShownLine} {places : List Nat} (p : ShownLine → Bool)
    (h : ∀ i ∈ places, i < lines.length) :
    seek? lines p places = some (places.find? (holdsAt lines p)) := by
  induction places with
  | nil => rfl
  | cons i rest ih =>
    have hi := h i List.mem_cons_self
    have hline : holdsAt lines p i = p lines[i] := by simp [holdsAt, hi]
    simp only [seek?, List.getElem?_eq_getElem hi, List.find?_cons, hline,
      ih fun j hj => h j (List.mem_cons_of_mem _ hj)]
    cases p lines[i] <;> rfl

theorem jump?_placesBelow (b : Browser) (p : ShownLine → Bool) :
    b.jump? p b.placesBelow = some (b.jumpForward p) := by
  rw [jump?, seek?_eq p fun i hi => (mem_placesBelow.mp hi).2, jumpForward_eq]
  rfl

theorem jump?_placesAbove {b : Browser} (h : b.offset ≤ b.lines.length) (p : ShownLine → Bool) :
    b.jump? p b.placesAbove = some (b.jumpBack p) := by
  rw [jump?, seek?_eq p fun i hi => by have := mem_placesAbove.mp hi; omega, jumpBack_eq h]
  rfl

theorem mapM_range'_getElem? {α : Type} (l : List α) {start n : Nat} (h : start + n ≤ l.length) :
    (List.range' start n).mapM (l[·]?) = some ((l.drop start).take n) := by
  induction n generalizing start with
  | zero => rfl
  | succ n ih =>
    have hlt : start < l.length := by omega
    have hrest : (List.range' (start + 1) n).mapM (l[·]?) = some ((l.drop (start + 1)).take n) :=
      ih (by omega)
    rw [List.range'_succ, List.mapM_cons, hrest, List.drop_eq_getElem_cons hlt,
      List.take_succ_cons, List.getElem?_eq_getElem hlt]
    rfl

/-- The lines on the screen are there, whatever the room for them is. -/
theorem visible?_eq (b : Browser) (room : Int) : b.visible? room = some (b.visible room) := by
  simp only [visible?, visible]
  by_cases hempty : b.lines.length ≤ b.offset
  · have hnone : min (b.offset + (max room 1).toNat) b.lines.length - b.offset = 0 := by omega
    rw [hnone, List.drop_eq_nil_of_le hempty, List.take_nil]
    rfl
  · rw [mapM_range'_getElem? b.lines (by omega)]
    congr 1
    rw [List.take_eq_take_iff, List.length_drop]
    omega

/-! ### Calls of the loader -/

/-- A call of the loader: the path that it was asked for, and its answer. -/
structure LoadCall where
  path : Bytes
  answer : Except Bytes Document

/-- The calls by which the selected patch is loaded. -/
def reloadCalls (load : Loader) (b : Browser) : List LoadCall :=
  (b.current?.map fun r => ⟨r.path, load r.path⟩).toList

/-- The calls of the loader in an action. -/
def actCalls (load : Loader) (b : Browser) : Action → List LoadCall
  | .nextPatch =>
    if b.index + 1 < b.reports.length then
      ({ b with index := b.index + 1, offset := 0 } : Browser).reloadCalls load
    else []
  | .previousPatch =>
    if 0 < b.index then ({ b with index := b.index - 1, offset := 0 } : Browser).reloadCalls load
    else []
  | _ => []

/-- The calls of the loader in an event. -/
def calls (load : Loader) (b : Browser) : BrowserEvent → List LoadCall
  | .resize _ _ => []
  | .press key =>
    match Action.ofKey? key with
    | some a => b.actCalls load a
    | none => []

theorem reload_congr {load load' : Loader} {b : Browser}
    (h : ∀ c ∈ b.reloadCalls load, load' c.path = c.answer) :
    b.reload lexers load' = b.reload lexers load := by
  unfold reload
  cases hr : b.current? with
  | none => rfl
  | some r =>
    have hsame : load' r.path = load r.path := h ⟨r.path, load r.path⟩ (by simp [reloadCalls, hr])
    simp only [hsame]

theorem act_congr {load load' : Loader} {b : Browser} {a : Action}
    (h : ∀ c ∈ b.actCalls load a, load' c.path = c.answer) :
    b.act lexers load' a = b.act lexers load a := by
  cases a with
  | nextPatch =>
    simp only [actCalls, act] at h ⊢
    split_ifs at h ⊢
    · exact reload_congr h
    · rfl
  | previousPatch =>
    simp only [actCalls, act] at h ⊢
    split_ifs at h ⊢
    · exact reload_congr h
    · rfl
  | _ => rfl

/-- **The calls are all that an event wants to know of the loader**: another loader that answers them
alike leads to the same state. -/
theorem update_congr {load load' : Loader} {b : Browser} {e : BrowserEvent}
    (h : ∀ c ∈ b.calls load e, load' c.path = c.answer) :
    b.update lexers load' e = b.update lexers load e := by
  cases e with
  | resize width height => rfl
  | press key =>
    cases ha : Action.ofKey? key with
    | none => simp only [update, ha]
    | some a =>
      simp only [calls, ha] at h
      simp only [update, ha, act_congr h]

/-- The browser after events, each with the loader of its time. -/
def after (lexers : Lexers) (b : Browser) : List (Loader × BrowserEvent) → Browser
  | [] => b
  | (load, e) :: rest => (b.update lexers load e).1.after lexers rest

/-- The calls of the loader during events. -/
def callsDuring (lexers : Lexers) (b : Browser) : List (Loader × BrowserEvent) → List LoadCall
  | [] => []
  | (load, e) :: rest => b.calls load e ++ (b.update lexers load e).1.callsDuring lexers rest

/-! ### What every event keeps -/

/-- The browser shows what the loader answered last, for the path of the selected report. -/
def Shows (lexers : Lexers) (b : Browser) : Option LoadCall → Prop
  | none => b.reports = [] ∧ b.lines = [] ∧ b.loadError = none
  | some call => ∃ r, b.current? = some r ∧ call.path = r.path ∧
    match call.answer with
    | .ok doc => b.lines = ShownLine.ofDocument lexers doc r ∧ b.loadError = none
    | .error why => b.lines = [] ∧ b.loadError = some why

/-- What holds between any two events, where `last` is the last call of the loader. -/
structure Steady (lexers : Lexers) (b : Browser) (last : Option LoadCall) : Prop where
  index : b.index = 0 ∨ b.index < b.reports.length
  offset : b.offset ≤ b.lines.length - 1
  shown : b.Shows lexers last

/-- The selected patch is one of the list, if there are any. -/
theorem Steady.index_lt {b : Browser} {last : Option LoadCall} (h : b.Steady lexers last)
    (hsome : b.reports ≠ []) : b.index < b.reports.length := by
  have hlength := List.length_pos_iff.mpr hsome
  rcases h.index with hzero | hlt <;> omega

/-- Scrolling changes nothing but the first line on the screen. -/
theorem Steady.scroll {b : Browser} {last : Option LoadCall} (h : b.Steady lexers last) {offset : Nat}
    (hoffset : offset ≤ b.lines.length - 1) : Steady lexers { b with offset := offset } last :=
  ⟨h.index, hoffset, h.shown⟩

theorem Steady.scrollTo {b : Browser} {last : Option LoadCall} (h : b.Steady lexers last) (offset : Int) :
    (b.scrollTo offset).Steady lexers last := h.scroll (by omega)

theorem Steady.jumpForward {b : Browser} {last : Option LoadCall} (h : b.Steady lexers last)
    (p : ShownLine → Bool) : (b.jumpForward p).Steady lexers last := by
  rw [jumpForward_eq]
  refine h.scroll ?_
  cases hfound : b.placesBelow.find? (holdsAt b.lines p) with
  | none => exact h.offset
  | some i =>
    have hplace := mem_placesBelow.mp (List.mem_of_find?_eq_some hfound)
    rw [Option.getD_some]
    omega

theorem Steady.jumpBack {b : Browser} {last : Option LoadCall} (h : b.Steady lexers last)
    (p : ShownLine → Bool) : (b.jumpBack p).Steady lexers last := by
  have hoffset := h.offset
  rw [jumpBack_eq (by omega)]
  refine h.scroll ?_
  cases hfound : b.placesAbove.find? (holdsAt b.lines p) with
  | none => exact h.offset
  | some i =>
    have hplace := mem_placesAbove.mp (List.mem_of_find?_eq_some hfound)
    rw [Option.getD_some]
    omega

/-- A patch that was just selected is shown as the loader gives it, from its first line. -/
theorem steady_reload (load : Loader) {b : Browser} (hindex : b.index = 0 ∨ b.index < b.reports.length)
    (hoffset : b.offset = 0) : (b.reload lexers load).Steady lexers (b.reloadCalls load).getLast? := by
  unfold reload reloadCalls
  cases hr : b.current? with
  | none =>
    have hnone : b.reports = [] := by
      have hlength := List.getElem?_eq_none_iff.mp hr
      by_contra hsome
      have hpos := List.length_pos_iff.mpr hsome
      rcases hindex with hzero | hlt <;> omega
    exact ⟨hindex, by simp [hoffset], hnone, rfl, rfl⟩
  | some r =>
    simp only [Option.map_some, Option.toList_some, List.getLast?_singleton]
    cases hanswer : load r.path with
    | ok doc => exact ⟨hindex, by simp [hoffset], r, hr, rfl, rfl, rfl⟩
    | error why => exact ⟨hindex, by simp [hoffset], r, hr, rfl, rfl, rfl⟩

/-- If the selected patch is one of the list, then loading it is a call. -/
theorem reloadCalls_ne_nil (load : Loader) {b : Browser} (h : b.index < b.reports.length) :
    (b.reloadCalls load).getLast?.isSome := by
  simp [reloadCalls, current?, List.getElem?_eq_getElem h]

/-- One action.  What was loaded in it, if anything, is what is shown afterwards. -/
theorem Steady.act {b : Browser} {last : Option LoadCall} (h : b.Steady lexers last) (load : Loader)
    (a : Action) : (b.act lexers load a).Steady lexers ((b.actCalls load a).getLast?.or last) := by
  cases a with
  | up => exact h.scrollTo _
  | down => exact h.scrollTo _
  | pageUp => exact h.scrollTo _
  | pageDown => exact h.scrollTo _
  | nextPatch =>
    simp only [Browser.act, actCalls]
    split_ifs with hnext
    · rw [Option.or_of_isSome (reloadCalls_ne_nil load hnext)]
      exact steady_reload load (.inr hnext) rfl
    · exact h
  | previousPatch =>
    simp only [Browser.act, actCalls]
    split_ifs with hback
    · have hlt : b.index - 1 < b.reports.length := by
        rcases h.index with hzero | hlt <;> omega
      rw [Option.or_of_isSome (reloadCalls_ne_nil load hlt)]
      exact steady_reload load (.inr hlt) rfl
    · exact h
  | nextIssue => exact h.jumpForward _
  | previousIssue => exact h.jumpBack _
  | nextHunk => exact h.jumpForward _
  | previousHunk => exact h.jumpBack _
  | help => exact ⟨h.index, h.offset, h.shown⟩
  | quit => exact h

/-- **One event.** -/
theorem Steady.update {b : Browser} {last : Option LoadCall} (h : b.Steady lexers last) (load : Loader)
    (e : BrowserEvent) :
    (b.update lexers load e).1.Steady lexers ((b.calls load e).getLast?.or last) := by
  cases e with
  | resize width height => exact ⟨h.index, h.offset, h.shown⟩
  | press key =>
    cases ha : Action.ofKey? key with
    | none =>
      simp only [Browser.update, calls, ha]
      exact h
    | some a =>
      simp only [Browser.update, calls, ha]
      exact h.act load a

/-- All events. -/
theorem Steady.after {b : Browser} {last : Option LoadCall} (h : b.Steady lexers last)
    (events : List (Loader × BrowserEvent)) :
    (b.after lexers events).Steady lexers ((b.callsDuring lexers events).getLast?.or last) := by
  induction events generalizing b last with
  | nil => exact h
  | cons event rest ih =>
    obtain ⟨load, e⟩ := event
    rw [Browser.after, callsDuring, List.getLast?_append, Option.or_assoc]
    exact ih (h.update load e)

theorem reload_summary (load : Loader) (b : Browser) : (b.reload lexers load).summary = b.summary := by
  unfold reload
  split
  · rfl
  · split <;> rfl

theorem act_summary (load : Loader) (b : Browser) (a : Action) :
    (b.act lexers load a).summary = b.summary := by
  cases a with
  | nextPatch =>
    simp only [act]
    split_ifs
    · exact reload_summary load _
    · rfl
  | previousPatch =>
    simp only [act]
    split_ifs
    · exact reload_summary load _
    · rfl
  | nextIssue => simp only [act, jumpForward_eq]
  | nextHunk => simp only [act, jumpForward_eq]
  | previousIssue => simp only [act, jumpBack]; split <;> rfl
  | previousHunk => simp only [act, jumpBack]; split <;> rfl
  | _ => rfl

theorem update_summary (load : Loader) (b : Browser) (e : BrowserEvent) :
    (b.update lexers load e).1.summary = b.summary := by
  cases e with
  | resize width height => rfl
  | press key =>
    cases ha : Action.ofKey? key with
    | none => simp only [update, ha]
    | some a => simp only [update, ha, act_summary]

theorem after_summary (b : Browser) (events : List (Loader × BrowserEvent)) :
    (b.after lexers events).summary = b.summary := by
  induction events generalizing b with
  | nil => rfl
  | cons event rest ih => exact (ih _).trans (update_summary event.1 b event.2)

/-! ### No place outside is looked at -/

theorem selected?_eq {b : Browser} (h : b.reports ≠ [] → b.index < b.reports.length) :
    b.selected? = some b.current? := by
  unfold selected? current?
  by_cases hempty : b.reports = []
  · simp [hempty]
  · rw [if_neg (by simpa using hempty), List.getElem?_eq_getElem (h hempty)]
    rfl

theorem reload?_eq {b : Browser} (load : Loader) (h : b.reports ≠ [] → b.index < b.reports.length) :
    b.reload? lexers load = some (b.reload lexers load) := by
  simp only [reload?, reload, selected?_eq h]
  cases b.current? with
  | none => rfl
  | some r => cases hanswer : load r.path <;> simp only [hanswer]

theorem Steady.act?_eq {b : Browser} {last : Option LoadCall} (h : b.Steady lexers last) (load : Loader)
    (a : Action) : b.act? lexers load a = some (b.act lexers load a) := by
  have hlines : b.offset ≤ b.lines.length := by
    have hoffset := h.offset
    omega
  cases a with
  | nextPatch =>
    simp only [act?, Browser.act]
    split_ifs with hnext
    · exact reload?_eq load fun _ => hnext
    · rfl
  | previousPatch =>
    simp only [act?, Browser.act]
    split_ifs with hback
    · refine reload?_eq load fun _ => ?_
      show b.index - 1 < b.reports.length
      rcases h.index with hzero | hlt <;> omega
    · rfl
  | nextIssue => exact b.jump?_placesBelow _
  | previousIssue => exact jump?_placesAbove hlines _
  | nextHunk => exact b.jump?_placesBelow _
  | previousHunk => exact jump?_placesAbove hlines _
  | _ => rfl

theorem Steady.update?_eq {b : Browser} {last : Option LoadCall} (h : b.Steady lexers last) (load : Loader)
    (e : BrowserEvent) : b.update? lexers load e = some (b.update lexers load e) := by
  cases e with
  | resize width height => rfl
  | press key =>
    cases ha : Action.ofKey? key with
    | none => simp only [update?, Browser.update, ha]
    | some a => simp only [update?, Browser.update, ha, h.act?_eq, Option.map_some]

theorem Steady.view?_eq {b : Browser} {last : Option LoadCall} (h : b.Steady lexers last) :
    b.view? = some b.view := by
  have htext : b.patchText? = some b.patchText := by
    simp only [patchText?, patchText, selected?_eq h.index_lt]
    cases b.current? with
    | none => rfl
    | some r =>
      cases b.loadError with
      | some why => rfl
      | none =>
        simp only [visible?_eq, Option.map_some]
        rfl
  unfold view? view
  split_ifs
  · rfl
  · rfl
  · rw [htext]
    rfl

end Browser

/-- **The browser keeps its place.**  For all lexers, every summary, every loader, which may answer
differently at each call, and all events: the selected patch is one of the list, or the place is 0 if
the list is empty; the first line on the screen is one of the patch; the lines are those of the
document that the loader gave for the selected report when it was called last, or there are none and
the error is kept; and neither a further event nor the screen looks at a report or a line that is not
there. -/
theorem browser_keeps_its_place (lexers : Lexers) (summary : Option Summary) (load : Loader)
    (events : List (Loader × BrowserEvent)) :
    let first := Browser.start lexers load summary
    let b := first.after lexers events
    let calls := ({ summary := summary } : Browser).reloadCalls load ++ first.callsDuring lexers events
    b.summary = summary ∧
    (b.reports = [] → b.index = 0) ∧ (b.reports ≠ [] → b.index < b.reports.length) ∧
    (b.offset : Int) ≤ max ((b.lines.length : Int) - 1) 0 ∧
    b.Shows lexers calls.getLast? ∧
    (∀ load' e, b.update? lexers load' e = some (b.update lexers load' e)) ∧ b.view? = some b.view ∧
    ∀ load' load'' e, (∀ c ∈ b.calls load' e, load'' c.path = c.answer) →
      b.update lexers load'' e = b.update lexers load' e := by
  intro first b calls
  have hfirst : first.Steady lexers (({ summary := summary } : Browser).reloadCalls load).getLast? :=
    Browser.steady_reload load (.inl rfl) rfl
  have hb : b.Steady lexers calls.getLast? := by
    rw [List.getLast?_append]
    exact hfirst.after events
  have hsummary : b.summary = summary :=
    (first.after_summary events).trans (Browser.reload_summary load _)
  refine ⟨hsummary, fun hempty => ?_, hb.index_lt, ?_, hb.shown, hb.update?_eq, hb.view?_eq,
    fun _ _ _ => Browser.update_congr⟩
  · rcases hb.index with hzero | hlt
    · exact hzero
    · simp [hempty] at hlt
  · have hoffset := hb.offset
    omega

end PatchAudit
