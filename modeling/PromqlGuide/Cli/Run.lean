import PromqlGuide.Cli.Command
import PromqlGuide.Display.CatalogText
import PromqlGuide.Log.Logger

/-!
Running a command line: it is read under the settings of a file, the command does its work, and the
log records that the verbosity lets through are written in front of the output.

Main statements: a run ends with status zero exactly if nothing went wrong
(`Run.status_eq_zero_iff`), and without verbosity no record is written (`logText_zero`).
-/
namespace PromqlGuide.Cli

/-! ### Outcomes -/

/-- Why a command fails: it was used wrongly, or what it has to show cannot be shown. -/
inductive Fault where
  | usage (fault : UsageFault)
  | view (fault : ViewFault)
  deriving Repr, DecidableEq

/-- What a command logs, and its output or why it fails. -/
structure Report where
  records : List (Log.Level × String)
  result : Except Fault String
  deriving Repr

/-- How a run ends: well, refused, failed, or without settings because of their file. -/
inductive Ending where
  | finished
  | refused (fault : UsageFault)
  | failed (fault : ViewFault)
  | unsettled (fault : Config.Fault)
  deriving Repr, DecidableEq

/-- What a run writes and how it ends. -/
structure Run where
  output : String
  ending : Ending
  deriving Repr, DecidableEq

/-- The exit status of a run. -/
def Run.status (r : Run) : Nat :=
  match r.ending with
  | .finished => 0
  | .refused _ => 2
  | .failed _ => 1
  | .unsettled _ => 1

/-- A run ends with status zero exactly if it is finished. -/
theorem Run.status_eq_zero_iff {r : Run} : r.status = 0 ↔ r.ending = .finished := by
  unfold Run.status
  cases r.ending <;> simp

/-! ### Commands -/

/-- Records of one level. -/
def recordsAt (level : Log.Level) (messages : List String) : List (Log.Level × String) :=
  messages.map fun m => (level, m)

/-- Shows text from the catalogs. -/
def shown (color : Bool) (text : String) : String :=
  writtenText color [.ofMarkup text color]

/-- Shows an entry of a catalog, whose queries are parsed for it. -/
def entryReport (limits : Limits) (color : Bool) (queries : List String)
    (text : Except Unexplained String) :
    Report :=
  ⟨recordsAt .debug (queries.flatMap fun q => (Query.parse limits q).records),
    match text with
    | .ok text => .ok (shown color text)
    | .error cause => .error (.view (.unexplained cause))⟩

/-- Shows a list. -/
def listReport (color : Bool) (text : String) : Report := ⟨[], .ok (shown color text)⟩

/-- Refuses what was asked for. -/
def refusal (fault : UsageFault) : Report := ⟨[], .error (.usage fault)⟩

/-- Shows an entry if it is there. -/
def foundOr {α : Type} (shelf : Catalog.Shelf) (wanted : String) (stored? : Option α)
    (report : α → Report) : Report :=
  match stored? with
  | some entry => report entry
  | none => refusal (.entry ⟨shelf, wanted⟩)

/-- The output of an expression. -/
def outputOf (limits : Limits) (format : OutputFormat) (e : Expr) (color : Bool) (theme : String) :
    Except Fault String :=
  match format.prepare limits e color theme with
  | .ok operations => .ok (writtenText color operations)
  | .error fault => .error (.view fault)

/-- Explains a query. -/
def explainReport (limits : Limits) (query format theme : String) (color : Bool) : Report :=
  match OutputFormat.ofName format with
  | .error fault => ⟨recordsAt .debug [fault.record], .error (.usage (.format fault))⟩
  | .ok format =>
    let parsed := Query.parse limits query
    ⟨recordsAt .debug parsed.records,
      match parsed.outcome with
      | .error fault => .error (.usage (.query fault query))
      | .ok e => outputOf limits format e color theme⟩

/-- Lists the functions of a category that mention a text. -/
def functionsReport (category search : Option String) (color : Bool) : Report :=
  match category.filter fun c => !Catalog.isCategory c with
  | some unknown => refusal (.category unknown Catalog.functionCategories)
  | none =>
    listReport color (CatalogText.functionList (Catalog.findFunctions category search) color)

/-- Does what is requested. -/
def Request.report (limits : Limits) (request : Request) (color : Bool) : Report :=
  match request with
  | .explain query format theme => explainReport limits query format theme.repaired color
  | .functions none category search => functionsReport category search color
  | .functions (some name) _ _ =>
    foundOr .functions name (Catalog.function? name) fun f =>
      entryReport limits color [f.sample] (CatalogText.function limits f color)
  | .concepts none => listReport color (CatalogText.conceptList Catalog.concepts color)
  | .concepts (some id) =>
    foundOr .concepts id (Catalog.concept? id) fun c =>
      entryReport limits color [c.query] (CatalogText.concept limits c color)
  | .scenarioList => listReport color (CatalogText.scenarioList Catalog.scenarios color)
  | .scenario id =>
    foundOr .scenarios id (Catalog.scenario? id) fun s =>
      entryReport limits color (s.samples.map (·.query)) (CatalogText.scenario limits s color)

/-- The record about the settings that a command starts from; only explanations have one. -/
def settingsRecord? (c : Command) (settings : Config.Settings) : Option String :=
  if c = .explain then Config.defaultsRecord? c.words settings else none

/-- Does what is asked for; the settings and parameters are logged first. -/
def Invocation.report (limits : Limits) (i : Invocation) (settings : Config.Settings) : Report :=
  let c := i.request.command
  let announced := (settingsRecord? c (Config.forExplain settings)).toList ++
    [Config.argumentsRecord c.words i.parameters]
  let report := i.request.report limits (usesColor i.color)
  { report with records := recordsAt .info announced ++ report.records }

/-! ### Runs -/

/-- A logger with the given verbosity to which records were given. -/
def loggerAfter (verbosity : Int) (records : List (Log.Level × String)) : Log.Logger :=
  records.foldl (fun l r => l.log r.1.number r.2) (Log.Logger.initial.configure verbosity)

/-- What a logger with the given verbosity writes about records. -/
def logText (verbosity : Int) (records : List (Log.Level × String)) : String :=
  String.join (loggerAfter verbosity records).outputs

/-- Without the option for it nothing is logged. -/
theorem logText_zero (records : List (Log.Level × String)) : logText 0 records = "" := by
  have h : ∀ l : Log.Logger, l.handlers = [] →
      records.foldl (fun l r => l.log r.1.number r.2) l = l := by
    induction records with
    | nil => intro l _; rfl
    | cons r rest ih =>
      intro l hl
      rw [List.foldl_cons, Log.Logger.log_of_no_handlers hl, ih l hl]
  rw [logText, loggerAfter, h _ rfl]
  rfl

/-- The verbosity that settings ask for. -/
def settledVerbosity (settings : Config.Settings) : Int :=
  match Json.lookup "verbose" settings with
  | some (.int n) => n
  | _ => 0

/-- Runs a command line under settings. The greater verbosity wins. -/
def runWith (limits : Limits) (settings : Config.Settings) (args : List String) : Run :=
  match invocation settings args with
  | .error fault => ⟨"", .refused fault⟩
  | .ok .help => ⟨helpText ++ "\n", .finished⟩
  | .ok (.run (count, i)) =>
    let report := i.report limits settings
    let log := logText (max count (settledVerbosity settings)) report.records
    match report.result with
    | .ok output => ⟨log ++ output, .finished⟩
    | .error (.usage fault) => ⟨log, .refused fault⟩
    | .error (.view fault) => ⟨log, .failed fault⟩

/-- Runs a command line; `contents` is what the file with the settings holds. -/
def run (limits : Limits) (contents : FileContents) (args : List String) : Run :=
  match Config.ofFile limits contents with
  | .error fault => ⟨"", .unsettled fault⟩
  | .ok settings => runWith limits settings args

/-- The path of the file with the settings; the folder itself is no file. -/
def settingsPath? (args : List String) : Option String := Config.filePath? (Config.fileNameIn args)

/-- Runs a command line in a folder. -/
def runIn (limits : Limits) (folder : Folder) (args : List String) : Run :=
  run limits (Config.readNamed folder (Config.fileNameIn args)) args

end PromqlGuide.Cli
