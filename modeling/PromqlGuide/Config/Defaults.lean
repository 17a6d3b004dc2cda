import PromqlGuide.Config.Folder
import PromqlGuide.Display.Output
import PromqlGuide.Json.Reader
import PromqlGuide.Text.Utf8

/-!
Defaults for command options, kept in a JSON file. The file holds an object whose only member may be
`defaults`, an object of option names and values. One bad entry makes the whole file malformed.

Main statement: the options about colour set nothing but the colour (`Config.color_of_mem`).
-/
namespace PromqlGuide.Config

/-- Settings by the name of the parameter that they set. -/
abbrev Settings := List (String × Json)

/-- Why there are no defaults: the file is malformed, no file can have its name, its bytes are no
text, or it holds a numeral that is refused or a container that is nested too deep. -/
inductive Fault where
  | malformed
  | illegalName
  | encoding (cause : Utf8.Fault)
  | numeral (cause : Text.NumeralTooLong)
  | nesting (container : Json.Container)
  deriving Repr, DecidableEq

/-- What is wrong, in words. -/
def Fault.message : Fault → String
  | malformed => "Malformed config"
  | illegalName => "embedded null byte"
  | encoding cause => cause.message
  | numeral cause => cause.message
  | nesting container =>
    "maximum recursion depth exceeded while decoding a JSON " ++ container.name ++
      " from a unicode string"

/-- The name of the file that holds the defaults if no other is named. -/
def defaultFileName : String := ".promql-tutor.json"

/-! ### Reading the file -/

/-- The object in a file; a file that is not there counts as empty. -/
def load (limits : Limits) : FileContents → Except Fault Settings
  | .missing => .ok []
  | .unreadable => .error .malformed
  | .illegalName => .error .illegalName
  | .bytes data =>
    match Utf8.decode data with
    | .error cause => .error (.encoding cause)
    | .ok text =>
      match Json.read limits text with
      | .error .malformed => .error .malformed
      | .error (.numeral cause) => .error (.numeral cause)
      | .error (.tooDeep container) => .error (.nesting container)
      | .ok (.obj members) => .ok members
      | .ok _ => .error .malformed

/-- The options in an object that may hold nothing else. -/
def options? (config : Settings) : Option Settings :=
  if config.any fun m => m.1 != "defaults" then none
  else
    match Json.lookup "defaults" config with
    | none => some []
    | some (.obj members) => some members
    | some _ => none

/-! ### Single options -/

/-- The value of an option that must be true or false; `none` if it is anything else. -/
def switch? (options : Settings) (name : String) : Option Bool :=
  match Json.lookup name options with
  | none => some false
  | some (.bool b) => some b
  | some _ => none

/-- The settings that the colour options ask for; `none` if they are malformed or contradict each
other. -/
def colorDefaults (options : Settings) : Option Settings :=
  match switch? options "--color", switch? options "--no-color" with
  | some true, some true => none
  | some true, some false => some [("color_flag", .bool true)]
  | some false, some true => some [("color_flag", .bool false)]
  | some false, some false => some []
  | _, _ => none

/-- The options about colour set nothing but the colour. -/
theorem color_of_mem {options colors : Settings} (h : colorDefaults options = some colors)
    {entry : String × Json} (he : entry ∈ colors) : entry.1 = "color_flag" := by
  unfold colorDefaults at h
  split at h
  · cases h
  · cases h
    rw [List.mem_singleton.1 he]
  · cases h
    rw [List.mem_singleton.1 he]
  · cases h
    cases he
  · cases h

/-- A verbosity: true or false, or a whole number that is not negative. -/
def verbosity? : Json → Option Int
  | .bool b => some (if b then 1 else 0)
  | .int n => if 0 ≤ n then some n else none
  | _ => none

/-- The text of a textual option; an output format must be one of those that there are. -/
def text? (option : String) : Json → Option LooseText
  | .text t =>
    if t.isBlank then none
    else if option = "--out" ∧ t.plain?.bind OutputFormat.ofName? = none then none
    else some t
  | _ => none

/-- The parameter that a textual option sets. -/
def textParameter? (option : String) : Option String :=
  if option = "--out" then some "out"
  else if option = "--out-theme" then some "out_theme"
  else none

/-- Adds the setting that an option asks for; `none` if there is no such option or its value is
malformed. -/
def apply (option : String) (value : Json) (settings : Settings) : Option Settings :=
  if option = "--verbose" then
    (verbosity? value).map fun n => Json.put "verbose" (.int n) settings
  else do
    let parameter ← textParameter? option
    let text ← text? option value
    some (Json.put parameter (.text text) settings)

/-! ### All options -/

/-- Whether the option is about colour. -/
def isColorOption (option : String) : Bool := option == "--color" || option == "--no-color"

/-- The settings that all options but those about colour ask for, on top of others; an option that
cannot be applied is returned instead. -/
def applyAll (settings : Settings) : Settings → Except (String × Json) Settings
  | [] => .ok settings
  | (option, value) :: rest =>
    if isColorOption option then applyAll settings rest
    else
      match apply option value settings with
      | none => .error (option, value)
      | some settings => applyAll settings rest

/-- The record about an option that could not be applied. -/
def badEntryRecord (entry : String × Json) : String :=
  "Invalid config entry " ++ entry.1 ++ "=" ++ entry.2.shown

/-- The settings that the options ask for, and what is logged; `none` if any is malformed. -/
def settings (options : Settings) : Option Settings × List String :=
  match colorDefaults options with
  | none => (none, [])
  | some colors =>
    match applyAll colors options with
    | .ok all => (some all, [])
    | .error entry => (none, [badEntryRecord entry])

/-- The settings in a file. -/
def ofFile (limits : Limits) (contents : FileContents) : Except Fault Settings := do
  let config ← load limits contents
  match (options? config).bind fun options => (settings options).1 with
  | some all => .ok all
  | none => .error .malformed

/-! ### Choosing the file -/

/-- The value of `--config` among arguments: attached with an equals sign, or the next one. -/
def fileNameIn : List String → String
  | [] => defaultFileName
  | arg :: rest =>
    let attached := "--config=".toList
    if arg = "--config" ∧ rest ≠ [] then rest.headD defaultFileName
    else if attached.isPrefixOf arg.toList then
      String.ofList (arg.toList.drop attached.length)
    else fileNameIn rest

/-- The name of the file that a command line names; the first word is the program. -/
def fileName (commandLine : List String) : String := fileNameIn commandLine.tail

/-- The path of the file with the given name; the folder itself is no file. -/
def filePath? (name : String) : Option String :=
  let path := Folder.cleaned name
  if path.isEmpty then none else some path

/-- Reads the file of the given name in a folder; its path is made absolute. -/
def readNamed (folder : Folder) (name : String) : FileContents :=
  match filePath? name with
  | none => .unreadable
  | some path => folder.readAbsolute path

/-- The settings for a command line in a folder. -/
def ofCommandLine (limits : Limits) (folder : Folder) (commandLine : List String) :
    Except Fault Settings :=
  ofFile limits (readNamed folder (fileName commandLine))

/-! ### Distribution to commands -/

/-- The settings for the command that explains queries. -/
def forExplain (all : Settings) : Settings := all.filter fun s => s.1 != "verbose"

/-- The settings for the commands that show catalogs. -/
def forCatalogs (all : Settings) : Settings := all.filter fun s => s.1 == "color_flag"

/-! ### Records -/

/-- Names and values, sorted by name. -/
def sortedEntries (entries : Settings) : Settings :=
  entries.mergeSort fun a b => decide (a.1 ≤ b.1)

/-- Names and values as records show them. -/
def shownEntries (entries : Settings) : String :=
  String.intercalate ", " (entries.map fun (name, value) => name ++ "=" ++ value.shown)

/-- The option that sets a parameter. -/
def optionOf? (parameter : String) : Option String :=
  [("color_flag", "--color/--no-color"), ("out", "--out"), ("out_theme", "--out-theme"),
    ("verbose", "--verbose")].lookup parameter

/-- The record about the defaults that a command starts from, if there are any. -/
def defaultsRecord? (command : String) (all : Settings) : Option String :=
  let entries := (sortedEntries all).filterMap fun (parameter, value) =>
    (optionOf? parameter).map fun option => (option, value)
  if entries.isEmpty then none
  else some ("Config defaults applied (" ++ command ++ "): " ++ shownEntries entries)

/-- The record about the arguments of a command. -/
def argumentsRecord (command : String) (arguments : Settings) : String :=
  "Command arguments (" ++ command ++ "): " ++ shownEntries (sortedEntries arguments)

end PromqlGuide.Config
