namespace PageMarkup

namespace Command

inductive Format where
  | text
  | json
  deriving DecidableEq, Repr

inductive Action where
  | build (path : String) (out : Option String) (maxDepth : Nat)
  | check (path : String) (format : Format) (maxDepth : Nat)
  | tags
  deriving DecidableEq, Repr

inductive Invocation where
  | version
  | run (verbose : Bool) (action : Action)
  deriving DecidableEq, Repr

inductive UsageError where
  | noCommand
  | missing (what : String)
  | unexpected (argument : String)
  | repeated (option : String)
  | invalid (option value : String)
  deriving DecidableEq, Repr

namespace UsageError

def message : UsageError → String
  | .noCommand => "error: no command given\n"
  | .missing what => "error: a value is required for " ++ what ++ "\n"
  | .unexpected argument => "error: unexpected argument '" ++ argument ++ "' found\n"
  | .repeated option => "error: the argument '" ++ option ++ "' cannot be used multiple times\n"
  | .invalid option value => "error: invalid value '" ++ value ++ "' for '" ++ option ++ "'\n"

end UsageError

inductive Setting where
  | out
  | maxDepth
  | format
  deriving DecidableEq, Repr

namespace Setting

def name : Setting → String
  | .out => "--out"
  | .maxDepth => "--max-depth"
  | .format => "--format"

end Setting

inductive Verb where
  | build
  | check
  | tags
  deriving DecidableEq, Repr

namespace Verb

def settings : Verb → List Setting
  | .build => [.out, .maxDepth]
  | .check => [.format, .maxDepth]
  | .tags => []

def ofName? : String → Option Verb
  | "build" => some .build
  | "check" => some .check
  | "tags" => some .tags
  | _ => none

end Verb

structure Given where
  verbose : Bool
  path : Option String
  settings : List (Setting × String)

namespace Given

def withVerbose (given : Given) : Except UsageError Given :=
  if given.verbose then .error (.repeated "--verbose") else .ok { given with verbose := true }

def withPath (given : Given) (verb : Verb) (path : String) : Except UsageError Given :=
  if verb = .tags ∨ given.path.isSome then .error (.unexpected path)
  else if path.isEmpty then .error (.missing "<PATH>")
  else .ok { given with path := some path }

def withSetting (given : Given) (setting : Setting) (value : String) : Except UsageError Given :=
  if (given.settings.lookup setting).isSome then .error (.repeated setting.name)
  else .ok { given with settings := (setting, value) :: given.settings }

end Given

def isOption (word : String) : Bool := word.toList.head? == some '-' && word ≠ "-"

def splitOption (word : List Char) : String × Option String :=
  let name := word.takeWhile (· ≠ '=')
  match word.dropWhile (· ≠ '=') with
  | [] => (.ofList name, none)
  | _ :: value => (.ofList name, some (.ofList value))

/-- Flags behind one dash. The result may name a setting whose value is still to come. -/
def readFlags (verb : Verb) (given : Given) : List Char → Except UsageError (Given × Option Setting)
  | [] => .ok (given, none)
  | c :: cs =>
    if c = 'v' then do readFlags verb (← given.withVerbose) cs
    else if c = 'o' ∧ .out ∈ verb.settings then
      match cs with
      | [] => .ok (given, some .out)
      | '=' :: value => do .ok (← given.withSetting .out (.ofList value), none)
      | value => do .ok (← given.withSetting .out (.ofList value), none)
    else .error (.unexpected (.ofList ['-', c]))

/-- Reads the arguments of a command. Behind two dashes every argument is a path. -/
def readGiven (verb : Verb) (given : Given) : List String → Except UsageError Given
  | [] => .ok given
  | word :: words =>
    if word = "--" then words.foldlM (fun given path => given.withPath verb path) given
    else if "--".toList.isPrefixOf word.toList then
      match splitOption (word.toList.drop 2) with
      | ("verbose", none) => do readGiven verb (← given.withVerbose) words
      | (name, value?) =>
        match verb.settings.find? (·.name == "--" ++ name), value?, words with
        | some setting, some value, words => do
          readGiven verb (← given.withSetting setting value) words
        | some setting, none, value :: words =>
          if isOption value then .error (.missing setting.name)
          else do readGiven verb (← given.withSetting setting value) words
        | some setting, none, [] => .error (.missing setting.name)
        | none, _, _ => .error (.unexpected word)
    else if isOption word then do
      match ← readFlags verb given word.toList.tail, words with
      | (given, none), words => readGiven verb given words
      | (given, some setting), value :: words =>
        if isOption value then .error (.missing setting.name)
        else readGiven verb (← given.withSetting setting value) words
      | (_, some setting), [] => .error (.missing setting.name)
    else do readGiven verb (← given.withPath verb word) words

def readDepth? (value : String) : Option Nat :=
  let digits := if value.toList.head? = some '+' then value.toList.tail else value.toList
  if digits.isEmpty || digits.any (!·.isDigit) then none
  else
    let depth := digits.foldl (fun n c => 10 * n + (c.toNat - '0'.toNat)) 0
    if depth < UInt64.size then some depth else none

def readFormat? : String → Option Format
  | "text" => some .text
  | "json" => some .json
  | _ => none

def Given.setting {α : Type} (given : Given) (setting : Setting) (default : α)
    (read? : String → Option α) : Except UsageError α :=
  match given.settings.lookup setting with
  | none => .ok default
  | some value =>
    match read? value with
    | some found => .ok found
    | none => .error (.invalid setting.name value)

def Given.action (given : Given) (defaultDepth : Nat) (verb : Verb) : Except UsageError Action := do
  let depth ← given.setting .maxDepth defaultDepth readDepth?
  let out ← given.setting .out none fun value => if value.isEmpty then none else some (some value)
  let format ← given.setting .format .text readFormat?
  match verb, given.path with
  | .tags, _ => .ok .tags
  | _, none => .error (.missing "<PATH>")
  | .build, some path => .ok (.build path out depth)
  | .check, some path => .ok (.check path format depth)

def readInvocation (defaultDepth : Nat) (verbose : Bool) : List String → Except UsageError Invocation
  | [] => .error .noCommand
  | word :: words =>
    if word = "-V" ∨ word = "--version" then .ok .version
    else if word = "-v" ∨ word = "--verbose" then
      if verbose then .error (.repeated "--verbose") else readInvocation defaultDepth true words
    else
      match Verb.ofName? word with
      | none => .error (.unexpected word)
      | some verb => do
        let given ← readGiven verb ⟨false, none, []⟩ words
        let action ← given.action defaultDepth verb
        .ok (.run (verbose || given.verbose) action)

end Command

end PageMarkup
