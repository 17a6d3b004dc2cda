/-!
Logging. A logger passes a record on if the record's level reaches its own, and every handler writes
it if the level reaches the handler's. Setting the verbosity replaces the program's own handler by
one that writes to the current output; a verbosity of zero removes all handlers.

Main statements: the level lies between the two ends (`Log.levelFor_cases`), removing the program's
handlers one by one keeps the others in their order (`Logger.removeOwn_eq`), and setting a positive
verbosity leaves exactly one handler of the program (`Logger.own_configure`).
-/
namespace PromqlGuide.Log

/-- The levels of records. -/
inductive Level where
  | debug
  | info
  | warning
  deriving Repr, DecidableEq

namespace Level

/-- The number of a level; more important records have larger numbers. -/
def number : Level → Int
  | debug => 10
  | info => 20
  | warning => 30

end Level

/-- The levels that a verbosity can ask for, from few records to many. -/
def levels : List Level := [.warning, .info, .debug]

/-- The place of a verbosity among the levels; beyond their ends it counts as the end. -/
def placeFor (verbosity : Int) : Fin levels.length :=
  ⟨(max 0 (min verbosity 2)).toNat, by have : levels.length = 3 := rfl; omega⟩

/-- The level that a verbosity asks for. -/
def levelFor (verbosity : Int) : Level := levels.get (placeFor verbosity)

/-- A verbosity, held between zero and two, is the place of its level. -/
theorem levelFor_eq {verbosity : Int} (place : Nat) (hplace : place < levels.length)
    (h : max 0 (min verbosity 2) = place) : levelFor verbosity = levels.get ⟨place, hplace⟩ := by
  have hfound : placeFor verbosity = ⟨place, hplace⟩ := Fin.ext (by simp only [placeFor]; omega)
  rw [levelFor, hfound]

/-- There are three levels: one for no verbosity, one for the first step and one for all others. -/
theorem levelFor_cases (verbosity : Int) :
    (verbosity ≤ 0 ∧ levelFor verbosity = .warning) ∨
      (verbosity = 1 ∧ levelFor verbosity = .info) ∨
      (2 ≤ verbosity ∧ levelFor verbosity = .debug) := by
  by_cases h : verbosity ≤ 0
  · exact Or.inl ⟨h, levelFor_eq 0 (by decide) (by omega)⟩
  · by_cases h1 : verbosity = 1
    · exact Or.inr (Or.inl ⟨h1, levelFor_eq 1 (by decide) (by omega)⟩)
    · exact Or.inr (Or.inr ⟨by omega, levelFor_eq 2 (by decide) (by omega)⟩)

/-- The level that decides where a logger has none of its own. -/
def effectiveLevel (level : Int) : Int := if level = 0 then Level.warning.number else level

/-- Whether a logger of one level passes on records of another. -/
def passes (loggerLevel recordLevel : Int) : Bool :=
  decide (effectiveLevel loggerLevel ≤ recordLevel)

/-- The name of the program's own handler. -/
def ownHandlerName : String := "promql_tutor.stdout"

/-- Where a handler writes: one of the outputs, by index, or somewhere that is not observed. -/
inductive Sink where
  | output (index : Nat)
  | elsewhere
  deriving Repr, DecidableEq

/-- A handler of log records. Handlers may look alike; the key tells which one it is. -/
structure Handler where
  key : Nat
  name : Option String
  level : Int
  sink : Sink
  deriving Repr, DecidableEq

/-- Whether the handler has the name of the program's own. -/
def Handler.isOwn (h : Handler) : Bool := h.name == some ownHandlerName

/-- A logger and the outputs so far; the last output is the current one. -/
structure Logger where
  level : Int
  propagate : Bool
  handlers : List Handler
  outputs : List String
  deriving Repr

namespace Logger

/-- A logger that nobody has set up. -/
def unset : Logger := ⟨0, true, [], [""]⟩

/-- Adds a handler, unless the logger has it already. -/
def add (h : Handler) (l : Logger) : Logger :=
  if h ∈ l.handlers then l else { l with handlers := l.handlers ++ [h] }

/-- Removes a handler. -/
def remove (h : Handler) (l : Logger) : Logger := { l with handlers := l.handlers.erase h }

/-- Goes through handlers and removes those of the program from the logger. -/
def removeOwnAmong (hs : List Handler) (l : Logger) : Logger :=
  hs.foldl (fun l h => if h.isOwn then l.remove h else l) l

/-- Removes the program's own handlers. -/
def removeOwn (l : Logger) : Logger := l.removeOwnAmong l.handlers

/-- The handler that the program adds. -/
def ownHandler (l : Logger) (level : Level) : Handler :=
  ⟨0, some ownHandlerName, level.number, .output (l.outputs.length - 1)⟩

/-- Sets the verbosity. -/
def configure (verbosity : Int) (l : Logger) : Logger :=
  let level := levelFor verbosity
  let leveled := { l with level := level.number, propagate := false }
  match level with
  | .warning => { leveled with handlers := [] }
  | _ => leveled.removeOwn.add (l.ownHandler level)

/-- A logger without handlers and with one empty output. -/
def initial : Logger := configure 0 unset

/-- Goes on with a new output; handlers keep theirs. -/
def swapOutput (l : Logger) : Logger := { l with outputs := l.outputs ++ [""] }

/-- Appends a line to one of the outputs. -/
def append (index : Nat) (message : String) (outputs : List String) : List String :=
  outputs.modify index fun text => text ++ message ++ "\n"

/-- Logs a record. -/
def log (level : Int) (message : String) (l : Logger) : Logger :=
  if passes l.level level then
    let writers := l.handlers.filter fun h => decide (h.level ≤ level)
    { l with
      outputs := writers.foldl
        (fun outputs h =>
          match h.sink with
          | .output index => append index message outputs
          | .elsewhere => outputs)
        l.outputs }
  else l

/-- What can happen to a logger. -/
inductive Event where
  | configure (verbosity : Int)
  | add (h : Handler)
  | log (level : Int) (message : String)
  | swapOutput
  deriving Repr

/-- What an event makes of a logger. -/
def after (l : Logger) : Event → Logger
  | .configure verbosity => l.configure verbosity
  | .add h => l.add h
  | .log level message => l.log level message
  | .swapOutput => l.swapOutput

/-- What events make of a logger, one after the other. -/
def run (events : List Event) (l : Logger) : Logger := events.foldl after l

/-- A logger without handlers writes nothing. -/
theorem log_of_no_handlers {l : Logger} (h : l.handlers = []) (level : Int) (message : String) :
    l.log level message = l := by
  obtain ⟨ownLevel, propagate, handlers, outputs⟩ := l
  subst h
  unfold log
  split <;> rfl

/-- A new handler becomes the last one. -/
theorem add_of_not_mem {h : Handler} {l : Logger} (hnot : h ∉ l.handlers) :
    l.add h = { l with handlers := l.handlers ++ [h] } :=
  if_neg hnot

/-- Going through the handlers removes the program's own and keeps the others in their order. -/
theorem removeOwnAmong_eq {kept : List Handler} (hkept : ∀ h ∈ kept, h.isOwn = false)
    (hs : List Handler) {l : Logger} (hl : l.handlers = kept ++ hs) :
    l.removeOwnAmong hs = { l with handlers := kept ++ hs.filter (!·.isOwn) } := by
  -- Over the handlers not yet passed; `kept` are those that were passed and stayed.
  induction hs generalizing kept l with
  | nil =>
    obtain ⟨level, propagate, handlers, outputs⟩ := l
    obtain rfl : handlers = kept ++ [] := hl
    rfl
  | cons x hs ih =>
    have hstep : l.removeOwnAmong (x :: hs) =
        (if x.isOwn then l.remove x else l).removeOwnAmong hs := rfl
    rw [hstep]
    cases hx : x.isOwn with
    | true =>
      have hnot : x ∉ kept := fun hmem => by simp [hkept x hmem] at hx
      have hrest : (l.remove x).handlers = kept ++ hs := by
        simp [remove, hl, List.erase_append_right _ hnot]
      rw [if_pos rfl, ih hkept hrest, List.filter_cons_of_neg (by simp [hx])]
      rfl
    | false =>
      have hmore : ∀ y ∈ kept ++ [x], y.isOwn = false := by
        intro y hy
        rcases List.mem_append.1 hy with hy | hy
        · exact hkept y hy
        · rw [List.mem_singleton.1 hy, hx]
      rw [if_neg Bool.false_ne_true, ih hmore (by simpa using hl),
        List.filter_cons_of_pos (by simp [hx]), List.append_assoc, List.singleton_append]

/-- Removing its own handlers keeps those of all other code. -/
theorem removeOwn_eq (l : Logger) :
    l.removeOwn = { l with handlers := l.handlers.filter (!·.isOwn) } := by
  have hnone : ∀ h ∈ ([] : List Handler), h.isOwn = false := fun h hmem => nomatch hmem
  exact removeOwnAmong_eq hnone l.handlers (Eq.refl l.handlers)

/-- Without verbosity a logger loses all its handlers. -/
theorem configure_of_quiet {verbosity : Int} (h : verbosity ≤ 0) (l : Logger) :
    l.configure verbosity =
      { l with level := Level.warning.number, propagate := false, handlers := [] } := by
  rcases levelFor_cases verbosity with ⟨-, hlevel⟩ | ⟨h1, -⟩ | ⟨h2, -⟩
  · unfold configure
    rw [hlevel]
  · omega
  · omega

/-- A positive verbosity keeps the handlers of others and adds one of the program behind them. -/
theorem configure_of_verbose {verbosity : Int} (h : 1 ≤ verbosity) (l : Logger) :
    l.configure verbosity =
      { l with
        level := (levelFor verbosity).number
        propagate := false
        handlers := l.handlers.filter (!·.isOwn) ++ [l.ownHandler (levelFor verbosity)] } := by
  have hnot : l.ownHandler (levelFor verbosity) ∉ l.handlers.filter (!·.isOwn) := by
    simp [Handler.isOwn, ownHandler]
  rcases levelFor_cases verbosity with ⟨h0, -⟩ | ⟨-, hlevel⟩ | ⟨-, hlevel⟩
  · omega
  all_goals
    rw [hlevel] at hnot ⊢
    unfold configure
    simp only [hlevel, removeOwn_eq]
    exact add_of_not_mem hnot

/-- A positive verbosity leaves exactly one handler of the program. -/
theorem own_configure {verbosity : Int} (h : 1 ≤ verbosity) (l : Logger) :
    (l.configure verbosity).handlers.filter Handler.isOwn =
      [l.ownHandler (levelFor verbosity)] := by
  rw [configure_of_verbose h]
  simp [List.filter_append, List.filter_filter, Handler.isOwn, ownHandler]

end Logger

end PromqlGuide.Log
