import EntryPoints.Path

/-!
Arguments of the command line. Options are long; one that takes a value finds it behind an equals
sign or in the next argument, which then must not look like an option. After two dashes every
argument is a plain one.
-/
namespace EntryPoints.CommandLine

/-- What a run over a manifest is asked to do. -/
structure PrimeArguments where
  root : Path
  manifest : Path
  settings? : Option Path
  binDirs : List Text
  reach? : Option Text
  placeholder? : Option Text
  json : Bool
  deriving DecidableEq, Repr

inductive Request where
  | help
  | version
  | check (command : Text)
  | prime (arguments : PrimeArguments)
  deriving DecidableEq, Repr

structure Invocation where
  verbose : Bool
  request : Request
  deriving DecidableEq, Repr

/-- Why arguments ask for nothing. -/
inductive UsageFault where
  | noSubcommand
  | unknown (argument : Text)
  | repeated (option : Text)
  | valueMissing (option : Text)
  | valueUnexpected (option : Text)
  | required (what : Text)
  deriving DecidableEq, Repr

def UsageFault.message : UsageFault → Text
  | .noSubcommand => Text.of "a subcommand is required: prime or check"
  | .unknown argument => Text.of "unexpected argument '" ++ argument ++ ['\'']
  | .repeated option => Text.of "'--" ++ option ++ Text.of "' cannot be used multiple times"
  | .valueMissing option => Text.of "a value is required for '--" ++ option ++ ['\'']
  | .valueUnexpected option => Text.of "'--" ++ option ++ Text.of "' takes no value"
  | .required what => Text.of "a required argument was not provided: " ++ what

/-- An argument by its looks. Options come without their dashes. -/
inductive Argument where
  | divider
  | long (name : Text) (value? : Option Text)
  | short (letters : Text)
  | plain (t : Text)
  deriving DecidableEq, Repr

def Argument.ofText : Text → Argument
  | ['-', '-'] => .divider
  | '-' :: '-' :: rest =>
    let name := rest.takeWhile (· ≠ '=')
    .long name ((rest.drop name.length).tail?)
  | ['-'] => .plain ['-']
  | '-' :: letters => .short letters
  | t => .plain t

def once {α : Type} (option : Text) (old? : Option α) (new : α) : Except UsageFault (Option α) :=
  match old? with
  | some _ => .error (.repeated option)
  | none => .ok (some new)

structure Given where
  verbose? : Option Unit := none
  json? : Option Unit := none
  root? : Option Text := none
  manifest? : Option Text := none
  settings? : Option Text := none
  reach? : Option Text := none
  placeholder? : Option Text := none
  binDirs : List Text := []
  deriving DecidableEq, Repr

namespace Given

def isPathOption (option : Text) : Bool :=
  option = Text.of "root" || option = Text.of "apps" || option = Text.of "config"

def takesValue (option : Text) : Bool :=
  isPathOption option || option = Text.of "bin-dir" || option = Text.of "tree-search" ||
    option = Text.of "root-variable"

def setValue (g : Given) (option value : Text) : Except UsageFault Given := do
  if isPathOption option && value = [] then .error (.valueMissing option)
  else if option = Text.of "root" then .ok { g with root? := ← once option g.root? value }
  else if option = Text.of "apps" then .ok { g with manifest? := ← once option g.manifest? value }
  else if option = Text.of "config" then .ok { g with settings? := ← once option g.settings? value }
  else if option = Text.of "tree-search" then .ok { g with reach? := ← once option g.reach? value }
  else if option = Text.of "root-variable" then
    .ok { g with placeholder? := ← once option g.placeholder? value }
  else .ok { g with binDirs := g.binDirs ++ [value] }

def setFlag (g : Given) (option : Text) : Except UsageFault Given := do
  if option = Text.of "verbose" then .ok { g with verbose? := ← once option g.verbose? () }
  else .ok { g with json? := ← once option g.json? () }

def arguments (g : Given) : Except UsageFault PrimeArguments :=
  match g.root?, g.manifest? with
  | some root, some manifest =>
    .ok ⟨root, manifest, g.settings?.map Path.of, g.binDirs, g.reach?, g.placeholder?,
      g.json?.isSome⟩
  | none, _ => .error (.required (Text.of "--root"))
  | _, none => .error (.required (Text.of "--apps"))

end Given

def primeRequest (verbose : Bool) : Given → List Text → Except UsageFault Invocation
  | g, [] => do
    let arguments ← g.arguments
    .ok ⟨verbose || g.verbose?.isSome, .prime arguments⟩
  | g, a :: rest =>
    match Argument.ofText a with
    | .divider =>
      match rest with
      | [] => do
        let arguments ← g.arguments
        .ok ⟨verbose || g.verbose?.isSome, .prime arguments⟩
      | b :: _ => .error (.unknown b)
    | .plain t => .error (.unknown t)
    | .short letters =>
      if letters.head? = some 'h' then .ok ⟨verbose, .help⟩ else .error (.unknown a)
    | .long name value? =>
      if Given.takesValue name then
        match value?, rest with
        | some value, rest =>
          match g.setValue name value with
          | .ok g => primeRequest verbose g rest
          | .error fault => .error fault
        | none, [] => .error (.valueMissing name)
        | none, b :: rest =>
          match Argument.ofText b with
          | .plain value =>
            match g.setValue name value with
            | .ok g => primeRequest verbose g rest
            | .error fault => .error fault
          | _ => .error (.valueMissing name)
      else if name = Text.of "verbose" || name = Text.of "json" || name = Text.of "help" then
        if value?.isSome then .error (.valueUnexpected name)
        else if name = Text.of "help" then .ok ⟨verbose, .help⟩
        else
          match g.setFlag name with
          | .ok g => primeRequest verbose g rest
          | .error fault => .error fault
      else .error (.unknown a)

/-- The arguments after `check`, of which one is the command. -/
def checkRequest (verbose : Bool) (own? : Option Unit) (command? : Option Text) (divided : Bool) :
    List Text → Except UsageFault Invocation
  | [] =>
    match command? with
    | some command => .ok ⟨verbose || own?.isSome, .check command⟩
    | none => .error (.required (Text.of "<COMMAND>"))
  | a :: rest =>
    match if divided then .plain a else Argument.ofText a with
    | .divider => checkRequest verbose own? command? true rest
    | .plain t =>
      match command? with
      | some _ => .error (.unknown t)
      | none => checkRequest verbose own? (some t) divided rest
    | .short letters =>
      if letters.head? = some 'h' then .ok ⟨verbose, .help⟩ else .error (.unknown a)
    | .long name value? =>
      if name = Text.of "verbose" || name = Text.of "help" then
        if value?.isSome then .error (.valueUnexpected name)
        else if name = Text.of "help" then .ok ⟨verbose, .help⟩
        else if own?.isSome then .error (.repeated name)
        else checkRequest verbose (some ()) command? divided rest
      else .error (.unknown a)

/-- The arguments after `help`: nothing, or the subcommand to be explained. -/
def helpRequest (verbose : Bool) : List Text → Except UsageFault Invocation
  | [] => .ok ⟨verbose, .help⟩
  | [t] =>
    if t = Text.of "prime" || t = Text.of "check" || t = Text.of "help" then .ok ⟨verbose, .help⟩
    else .error (.unknown t)
  | _ :: t :: _ => .error (.unknown t)

def invocation (verbose : Bool) : List Text → Except UsageFault Invocation
  | [] => .error .noSubcommand
  | a :: rest =>
    match Argument.ofText a with
    | .divider =>
      match rest with
      | [] => .error .noSubcommand
      | b :: _ => .error (.unknown b)
    | .plain t =>
      if t = Text.of "prime" then primeRequest verbose {} rest
      else if t = Text.of "check" then checkRequest verbose none none false rest
      else if t = Text.of "help" then helpRequest verbose rest
      else .error (.unknown t)
    | .short letters =>
      if letters.head? = some 'h' then .ok ⟨verbose, .help⟩
      else if letters.head? = some 'V' then .ok ⟨verbose, .version⟩
      else .error (.unknown a)
    | .long name value? =>
      if name = Text.of "verbose" || name = Text.of "help" || name = Text.of "version" then
        if value?.isSome then .error (.valueUnexpected name)
        else if name = Text.of "help" then .ok ⟨verbose, .help⟩
        else if name = Text.of "version" then .ok ⟨verbose, .version⟩
        else if verbose then .error (.repeated name)
        else invocation true rest
      else .error (.unknown a)

end EntryPoints.CommandLine
