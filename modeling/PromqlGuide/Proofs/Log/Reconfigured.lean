import Mathlib.Data.List.Induction
import PromqlGuide.Log.Logger

/-!
# Loggers that are set up again and again

A logger is set up any number of times, and in between other code adds handlers of its own.  Which
of these handlers it has is told by the events behind the last one that removes all handlers, and of
the program's own handlers it never has more than one (`Logger.isSetUp_of_run`).

Two facts about one event carry the run: what it makes of the handlers of others (`foreign_after`)
and of those of the program (`length_own_after`).
-/
namespace PromqlGuide.Log.Logger

/-- The handlers that other code added. -/
def foreign (l : Logger) : List Handler := l.handlers.filter (!·.isOwn)

/-- The program's own handlers. -/
def own (l : Logger) : List Handler := l.handlers.filter Handler.isOwn

namespace Event

/-- Whether the event leaves it to the program to add handlers with the name of the program's
own. -/
def IsForeign : Event → Prop
  | .add h => h.name ≠ some ownHandlerName
  | _ => True

/-- Whether the event removes all handlers. -/
def isQuiet : Event → Bool
  | .configure verbosity => decide (verbosity ≤ 0)
  | _ => false

/-- The handler that the event adds. -/
def added? : Event → Option Handler
  | .add h => some h
  | _ => none

end Event

/-- The handlers added behind the last event that removes all handlers, in order. -/
def addedSince (events : List Event) : List Handler :=
  (events.reverse.takeWhile (!·.isQuiet)).reverse.filterMap Event.added?

/-- How a logger is set up with a verbosity after events. -/
structure IsSetUp (verbosity : Int) (events : List Event) (l : Logger) : Prop where
  level_eq : l.level =
    (if verbosity ≤ 0 then Level.warning else if verbosity = 1 then .info else .debug).number
  propagate_eq : l.propagate = false
  handlers_of_quiet : verbosity ≤ 0 → l.handlers = []
  handlers_of_verbose : 1 ≤ verbosity → ∃ h, h.name = some ownHandlerName ∧ h.level = l.level ∧
    l.own = [h] ∧ l.handlers.getLast? = some h ∧ l.foreign = (addedSince events).eraseDups

variable {l : Logger} {events : List Event} {e : Event} {verbosity : Int}

/-- Behind an event that removes all handlers none is added yet. -/
lemma addedSince_of_quiet (he : e.isQuiet = true) : addedSince (events ++ [e]) = [] := by
  simp [addedSince, he]

/-- Any other event adds the handler that it has, if it has one. -/
lemma addedSince_append (he : e.isQuiet = false) :
    addedSince (events ++ [e]) = addedSince events ++ e.added?.toList := by
  have hone : [e].filterMap Event.added? = e.added?.toList := by
    cases e <;> rfl
  simp [addedSince, he, hone]

/-- A handler with another name is not the program's own. -/
lemma isOwn_eq_false {h : Handler} (hname : h.name ≠ some ownHandlerName) : h.isOwn = false := by
  simpa [Handler.isOwn] using hname

/-- A last entry is kept among distinct entries if it is a new one. -/
lemma eraseDups_append_singleton {α : Type*} [BEq α] [LawfulBEq α] [DecidableEq α] (as : List α)
    (a : α) : (as ++ [a]).eraseDups = if a ∈ as then as.eraseDups else as.eraseDups ++ [a] := by
  rw [List.eraseDups_append]
  by_cases ha : a ∈ as
  · simp [ha, List.removeAll]
  · simp [ha, List.removeAll, List.eraseDups_cons]

/-! ### One event -/

/-- Logging leaves the handlers as they are. -/
lemma handlers_log (level : Int) (message : String) :
    (l.log level message).handlers = l.handlers := by
  unfold log
  split <;> rfl

/-- A handler with another name is one that other code added. -/
lemma mem_foreign_iff {h : Handler} (hname : h.name ≠ some ownHandlerName) :
    h ∈ l.foreign ↔ h ∈ l.handlers := by
  simp [foreign, isOwn_eq_false hname]

/-- A positive verbosity leaves the handlers of others as they are. -/
lemma foreign_configure (h : 1 ≤ verbosity) : (l.configure verbosity).foreign = l.foreign := by
  simp [foreign, configure_of_verbose h, Handler.isOwn, ownHandler]

/-- An event that does not remove all handlers keeps those of others, and a new one comes behind
them. -/
lemma foreign_after (he : e.IsForeign) (hquiet : e.isQuiet = false) :
    (l.after e).foreign = match e.added? with
      | some h => if h ∈ l.foreign then l.foreign else l.foreign ++ [h]
      | none => l.foreign := by
  cases e with
  | configure verbosity =>
    have hverbose : ¬ verbosity ≤ 0 := of_decide_eq_false hquiet
    exact foreign_configure (by omega)
  | add h =>
    simp only [after, Event.added?, mem_foreign_iff he, add]
    split_ifs with hmem
    · rfl
    · simp [foreign, isOwn_eq_false he]
  | log level message => simp [after, foreign, Event.added?, handlers_log]
  | swapOutput => rfl

/-- No event leaves a second handler of the program. -/
lemma length_own_after (he : e.IsForeign) (h : l.own.length ≤ 1) : (l.after e).own.length ≤ 1 := by
  cases e with
  | configure verbosity =>
    by_cases hquiet : verbosity ≤ 0
    · simp [after, own, configure_of_quiet hquiet]
    · have hown : (l.after (.configure verbosity)).own = _ := own_configure (by omega) l
      rw [hown]
      exact Nat.le_refl 1
  | add x =>
    show (l.add x).own.length ≤ 1
    unfold add
    split_ifs with hmem
    · exact h
    · simpa [own, isOwn_eq_false he] using h
  | log level message => simpa [after, own, handlers_log] using h
  | swapOutput => exact h

/-! ### Runs -/

/-- The last event of a run is done after the others. -/
lemma run_append (events : List Event) (e : Event) (l : Logger) :
    l.run (events ++ [e]) = (l.run events).after e := by
  simp [run]

/-- After a run the handlers of other code are those added since all were removed, each once. -/
lemma foreign_run (hl : l.handlers = []) (h : ∀ e ∈ events, e.IsForeign) :
    (l.run events).foreign = (addedSince events).eraseDups := by
  -- From the last event, since it is the events behind the last removal that count.
  induction events using List.reverseRecOn with
  | nil => simp [run, foreign, hl, addedSince]
  | append_singleton events e ih =>
    have he : e.IsForeign := h e (by simp)
    have hrun := ih fun x hx => h x (List.mem_append_left _ hx)
    rw [run_append]
    cases hquiet : e.isQuiet with
    | true =>
      rw [addedSince_of_quiet hquiet]
      cases e with
      | configure verbosity =>
        simp [after, foreign, configure_of_quiet (of_decide_eq_true hquiet)]
      | _ => cases hquiet
    | false =>
      rw [foreign_after he hquiet, addedSince_append hquiet, hrun]
      cases e.added? with
      | none => simp
      | some x =>
        rw [Option.toList_some, eraseDups_append_singleton]
        simp [List.mem_eraseDups]

/-- After a run the program has at most one handler of its own. -/
lemma length_own_run (hl : l.handlers = []) (h : ∀ e ∈ events, e.IsForeign) :
    (l.run events).own.length ≤ 1 := by
  induction events using List.reverseRecOn with
  | nil => simp [run, own, hl]
  | append_singleton events e ih =>
    rw [run_append]
    exact length_own_after (h e (by simp)) (ih fun x hx => h x (List.mem_append_left _ hx))

/-- Configuring a logger sets it up with the verbosity. -/
lemma isSetUp_configure (hforeign : l.foreign = (addedSince events).eraseDups) :
    IsSetUp verbosity events (l.configure verbosity) := by
  have hlevel : levelFor verbosity =
      if verbosity ≤ 0 then Level.warning else if verbosity = 1 then .info else .debug := by
    rcases levelFor_cases verbosity with ⟨h0, h⟩ | ⟨h1, h⟩ | ⟨h2, h⟩
    · rw [h, if_pos h0]
    · rw [h, if_neg (by omega), if_pos h1]
    · rw [h, if_neg (by omega), if_neg (by omega)]
  by_cases hquiet : verbosity ≤ 0
  · rw [configure_of_quiet hquiet]
    exact ⟨by rw [if_pos hquiet], rfl, fun _ => rfl, fun h => by omega⟩
  · have hverbose : 1 ≤ verbosity := by omega
    have hown := own_configure hverbose l
    have hkept := (foreign_configure hverbose).trans hforeign
    refine ⟨?_, ?_, fun h => absurd h hquiet, fun _ => ⟨l.ownHandler (levelFor verbosity), ?_⟩⟩
    · rw [configure_of_verbose hverbose, ← hlevel]
    · rw [configure_of_verbose hverbose]
    · refine ⟨rfl, ?_, hown, ?_, hkept⟩ <;> rw [configure_of_verbose hverbose]
      · rfl
      · exact List.getLast?_concat

/-- Whatever happens to a logger that starts without handlers, as long as other code adds no
handlers with the name of the program's own: setting a verbosity gives the logger the level for it,
keeps records from being passed on, and removes all handlers or leaves one handler of the program,
with that level, behind the handlers that other code added since all handlers were last removed.  At
no time does the logger have two handlers of the program. -/
theorem isSetUp_of_run (hl : l.handlers = []) (h : ∀ e ∈ events, e.IsForeign) :
    (∀ verbosity : Int, IsSetUp verbosity events (l.run (events ++ [.configure verbosity]))) ∧
      (l.run events).own.length ≤ 1 := by
  refine ⟨fun verbosity => ?_, length_own_run hl h⟩
  rw [run_append]
  exact isSetUp_configure (foreign_run hl h)

/-- A handler of other code, with a key and a level. -/
def otherHandler (key : Nat) (level : Int) : Handler := ⟨key, none, level, .elsewhere⟩

/-- A run in which handlers are added before and after all are removed, one of them twice, and two
look alike. -/
def busyRun : List Event :=
  [.add (otherHandler 1 10), .configure 5, .add (otherHandler 2 20), .configure (-3),
    .add (otherHandler 3 20), .configure 1, .add (otherHandler 2 20), .add (otherHandler 3 20)]

/-- After the run, a verbosity of two leaves the two handlers that were added last, each once and in
their order, and one of the program behind them. -/
theorem isSetUp_of_run_busy :
    unset.handlers = [] ∧ (∀ e ∈ busyRun, e.IsForeign) ∧
      addedSince busyRun = [otherHandler 3 20, otherHandler 2 20, otherHandler 3 20] ∧
      IsSetUp 2 busyRun (unset.run (busyRun ++ [.configure 2])) ∧
        (unset.run busyRun).own.length ≤ 1 := by
  have hforeign : ∀ e ∈ busyRun, e.IsForeign := by
    simp [busyRun, Event.IsForeign, otherHandler]
  have hrun := isSetUp_of_run (l := unset) rfl hforeign
  exact ⟨rfl, hforeign, by decide, hrun.1 2, hrun.2⟩

end PromqlGuide.Log.Logger
