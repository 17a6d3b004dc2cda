import PromqlGuide.Text.Quoted

/-!
Options on a command line. A long option starts with two dashes and a short one with one; several
short options may share a dash. A value is attached to a long option with an equals sign or is the
next argument, whatever that looks like. Two dashes alone end the options.

Main statement: arguments without dashes in front are all positional
(`Options.scan_of_positional`).
-/
namespace PromqlGuide.Cli

/-- What an option does: it takes a value for a parameter, sets a parameter to a truth value, is
counted, or asks for help. -/
inductive OptionKind where
  | value (parameter : String)
  | switch (parameter : String) (on : Bool)
  | counted (parameter : String)
  | help
  deriving Repr, DecidableEq

/-- The options of a command by their names, and whether they may stand behind positional
arguments. -/
structure Options where
  named : List (String × OptionKind)
  interspersed : Bool
  deriving Repr

/-- One option as it was given. -/
inductive Given where
  | value (parameter text : String)
  | switch (parameter : String) (on : Bool)
  | counted (parameter : String)
  | help
  deriving Repr, DecidableEq

/-- Why options cannot be read: there is no such option, its value is missing, or it takes none. -/
inductive OptionFault where
  | unknown (name : String)
  | valueMissing (name : String)
  | valueRefused (name : String)
  deriving Repr, DecidableEq

namespace Options

/-- Options as they were given, and the positional arguments, both in order. -/
abbrev Scanned := List Given × List String

/-- Puts options in front of those that follow. -/
def withGiven (given : List Given) (r : Except OptionFault Scanned) : Except OptionFault Scanned :=
  r.map fun (more, positional) => (given ++ more, positional)

/-- Puts a positional argument in front of those that follow. -/
def withPositional (arg : String) (r : Except OptionFault Scanned) : Except OptionFault Scanned :=
  r.map fun (given, positional) => (given, arg :: positional)

/-- Whether the argument looks like an option. -/
def looksLikeOption (arg : List Char) : Bool :=
  match arg with
  | '-' :: _ :: _ => true
  | _ => false

/-- The name of a long option and the value attached to it. -/
def splitAttached (arg : List Char) : List Char × Option (List Char) :=
  if arg.contains '=' then
    (arg.takeWhile (· != '='), some ((arg.dropWhile (· != '=')).drop 1))
  else (arg, none)

/-- The short options that share a dash. None of them takes a value. -/
def shortOptions (o : Options) : List Char → Except OptionFault (List Given)
  | [] => .ok []
  | c :: rest =>
    let name := String.ofList ['-', c]
    match o.named.lookup name with
    | some (.counted parameter) => (o.shortOptions rest).map (.counted parameter :: ·)
    | some (.switch parameter on) => (o.shortOptions rest).map (.switch parameter on :: ·)
    | some .help => (o.shortOptions rest).map (.help :: ·)
    | _ => .error (.unknown name)

/-- What one argument is: the end of all options, options that are complete, an option that still
wants its value, or a positional argument. -/
inductive Item where
  | endOfOptions
  | complete (given : List Given)
  | wanting (name parameter : String)
  | positional
  deriving Repr, DecidableEq

/-- The long option with the given name, with the value attached to it if there is one. -/
def longOption (name : String) (kind : OptionKind) (attached : Option (List Char)) :
    Except OptionFault Item :=
  match kind, attached with
  | .value parameter, none => .ok (.wanting name parameter)
  | .value parameter, some text => .ok (.complete [.value parameter (String.ofList text)])
  | .switch parameter on, none => .ok (.complete [.switch parameter on])
  | .counted parameter, none => .ok (.complete [.counted parameter])
  | .help, none => .ok (.complete [.help])
  | _, some _ => .error (.valueRefused name)

/-- Whether two dashes are in front. -/
def isLong (arg : List Char) : Bool := ['-', '-'].isPrefixOf arg

/-- Reads one argument. -/
def item (o : Options) (arg : String) : Except OptionFault Item :=
  let cs := arg.toList
  if arg = "--" then .ok .endOfOptions
  else if looksLikeOption cs then
    if isLong cs then
      let name := String.ofList (splitAttached cs).1
      match o.named.lookup name with
      | some kind => longOption name kind (splitAttached cs).2
      | none => .error (.unknown name)
    else (o.shortOptions (cs.drop 1)).map .complete
  else .ok .positional

/-- Reads options and positional arguments. -/
def scan (o : Options) : List String → Except OptionFault Scanned
  | [] => .ok ([], [])
  | arg :: rest =>
    match o.item arg with
    | .error fault => .error fault
    | .ok .endOfOptions => .ok ([], rest)
    | .ok (.complete given) => withGiven given (o.scan rest)
    | .ok (.wanting name parameter) =>
      match rest with
      | [] => .error (.valueMissing name)
      | text :: rest => withGiven [.value parameter text] (o.scan rest)
    | .ok .positional =>
      if o.interspersed then withPositional arg (o.scan rest) else .ok ([], arg :: rest)

/-- An argument that does not look like an option is positional. -/
theorem item_of_positional (o : Options) {arg : String}
    (h : looksLikeOption arg.toList = false) : o.item arg = .ok .positional := by
  have hd : arg ≠ "--" := by
    rintro rfl
    exact absurd h (by decide)
  simp [item, hd, h]

/-- Arguments that look like no options are positional. -/
theorem scan_of_positional (o : Options) {args : List String}
    (h : ∀ a ∈ args, looksLikeOption a.toList = false) : o.scan args = .ok ([], args) := by
  induction args with
  | nil => rfl
  | cons a rest ih =>
    have hr := ih fun b hb => h b (List.mem_cons_of_mem _ hb)
    simp only [scan, item_of_positional o (h a List.mem_cons_self), hr]
    cases o.interspersed <;> rfl

end Options

/-! ### Options as given -/

namespace Given

/-- The last value given for a parameter. -/
def valueOf? (given : List Given) (parameter : String) : Option String :=
  (given.filterMap fun g =>
    match g with
    | .value p text => if p = parameter then some text else none
    | _ => none).getLast?

/-- The last truth value given for a parameter. -/
def switchOf? (given : List Given) (parameter : String) : Option Bool :=
  (given.filterMap fun g =>
    match g with
    | .switch p on => if p = parameter then some on else none
    | _ => none).getLast?

/-- How often an option was given. -/
def countOf (given : List Given) (parameter : String) : Nat :=
  given.countP fun g => g == .counted parameter

/-- Whether help was asked for. -/
def asksHelp (given : List Given) : Bool := given.any fun g => g == .help

end Given

end PromqlGuide.Cli
