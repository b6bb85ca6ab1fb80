import SchemaIr.Settings.Basic

/-! # Arguments

The arguments of the command line name one of three commands with its options. A long option has its value
after an equals sign or as the next argument; a short one also directly behind its letter. Options may stand
between the files, and all arguments after `--` are files. An option that does not add to a list may be
given once. -/

namespace SchemaIr.CommandLine

/-- What a run over module files is told on the command line. -/
structure RunOptions where
  files : List String
  searchPaths : List String
  compression : Option Compression
  fakeRoot : Bool
  fakeRootName : Option String
  skipEnumDedup : Bool
  excludeModules : List String
  deriving Repr

/-- The settings of a run with the command line over them. -/
def RunOptions.apply (o : RunOptions) (s : Settings) : Settings :=
  { s with
    searchPaths := s.searchPaths ++ o.searchPaths
    generate :=
      ⟨o.compression.getD s.generate.compression, o.fakeRoot || s.generate.withFakeRoot,
        o.fakeRootName.getD s.generate.fakeRootName, o.skipEnumDedup || s.generate.skipEnumDedup,
        s.generate.excludeModules ++ o.excludeModules⟩ }

/-- A command. -/
inductive Command
  /-- Write the result of a run. -/
  | generate (run : RunOptions) (output : Option String) (compact : Bool)
  /-- Report what a run finds. -/
  | check (run : RunOptions)
  /-- Write a settings file. -/
  | initConfig (path : String) (force : Bool)
  deriving Repr

/-- A command line. -/
structure Arguments where
  /-- The settings file named for the run. -/
  settingsFile : Option String
  command : Command
  deriving Repr

/-- Why there is no command to run. -/
inductive Refusal
  /-- Help is asked for. -/
  | help
  /-- The arguments are not a command line. -/
  | usage
  deriving DecidableEq, Repr

/-! ### Options -/

/-- The options there are. -/
inductive Flag
  | config | searchPath | compress | fakeRoot | fakeRootName | skipEnumDedup | excludeModule | output
  | compact | force | help
  deriving DecidableEq, Repr

namespace Flag

def all : List Flag :=
  [config, searchPath, compress, fakeRoot, fakeRootName, skipEnumDedup, excludeModule, output, compact, force,
    help]

def long : Flag → String
  | config => "config"
  | searchPath => "search-path"
  | compress => "compress"
  | fakeRoot => "fake-root"
  | fakeRootName => "fake-root-name"
  | skipEnumDedup => "skip-enum-dedup"
  | excludeModule => "exclude-module"
  | output => "output"
  | compact => "compact"
  | force => "force"
  | help => "help"

def short? : Flag → Option Char
  | config => some 'c'
  | searchPath => some 'I'
  | output => some 'o'
  | help => some 'h'
  | _ => none

def takesValue : Flag → Bool
  | config | searchPath | compress | fakeRootName | excludeModule | output => true
  | fakeRoot | skipEnumDedup | compact | force | help => false

/-- The option may be given several times. -/
def repeats : Flag → Bool
  | searchPath | excludeModule => true
  | _ => false

/-- A value fits the option: a path is not empty, and a compression is one of the known names. -/
def accepts (f : Flag) (value : String) : Bool :=
  match f with
  | config | searchPath | output => value ≠ ""
  | compress => (Compression.ofName value).toBool
  | _ => true

end Flag

/-- The options and the other arguments that are given, in order. -/
structure Given where
  options : List (Flag × String)
  others : List String

namespace Given

def empty : Given := ⟨[], []⟩

/-- The values of an option. -/
def values (g : Given) (f : Flag) : List String := (g.options.filter (·.1 == f)).map (·.2)

def value? (g : Given) (f : Flag) : Option String := (g.values f).head?

def has (g : Given) (f : Flag) : Bool := !(g.values f).isEmpty

/-- Adds an option with its value, which is empty for a switch. -/
def addOption (g : Given) (f : Flag) (value : String) : Except Refusal Given :=
  if f = .help then .error .help
  else if (g.has f && !f.repeats) || !f.accepts value then .error .usage
  else .ok { g with options := g.options ++ [(f, value)] }

/-- Adds another argument, which is the path of a file and must not be empty. -/
def addOther (g : Given) (arg : String) : Except Refusal Given :=
  if arg = "" then .error .usage else .ok { g with others := g.others ++ [arg] }

end Given

/-- An option as an argument gives it, with its value if the argument holds one. -/
structure GivenOption where
  flag : Flag
  value : Option String

/-- The option that an argument is, among the ones that are known. -/
def option? (known : List Flag) (arg : List Char) : Except Refusal (Option GivenOption) :=
  match arg with
  | '-' :: '-' :: rest =>
    let name := String.ofList (rest.takeWhile (· ≠ '='))
    match known.find? (·.long == name), rest.dropWhile (· ≠ '=') with
    | none, _ => .error .usage
    | some f, [] => .ok (some ⟨f, none⟩)
    | some f, _ :: value => if f.takesValue then .ok (some ⟨f, some (String.ofList value)⟩) else .error .usage
  | '-' :: c :: rest =>
    match known.find? (·.short? == some c) with
    | none => .error .usage
    | some f =>
      if f.takesValue then
        match rest with
        | [] => .ok (some ⟨f, none⟩)
        | '=' :: value => .ok (some ⟨f, some (String.ofList value)⟩)
        | value => .ok (some ⟨f, some (String.ofList value)⟩)
      else .ok (some ⟨f, none⟩)
  | _ => .ok none

/-- An argument that begins like an option is not the value of one. -/
def looksLikeOption (arg : String) : Bool := arg.startsWith "-" && arg != "-"

/-- Reads arguments up to the first one that is no option, if `one` is set, and to the end otherwise; gives
    the arguments that are left. -/
def read (known : List Flag) (one : Bool) : List String → Given → Except Refusal (Given × List String)
  | [], g => .ok (g, [])
  | [arg], g => do
    if arg = "--" then .ok (g, [])
    else
      match ← option? known arg.toList with
      | none => if one then .ok (g, [arg]) else pure (← g.addOther arg, [])
      | some ⟨f, some value⟩ => pure (← g.addOption f value, [])
      | some ⟨f, none⟩ => if f.takesValue then .error .usage else pure (← g.addOption f "", [])
  | arg :: next :: rest, g => do
    if arg = "--" then
      if one then .error .usage else pure (← (next :: rest).foldlM Given.addOther g, [])
    else
      match ← option? known arg.toList with
      | none =>
        if one then .ok (g, arg :: next :: rest)
        else read known one (next :: rest) (← g.addOther arg)
      | some ⟨f, some value⟩ => read known one (next :: rest) (← g.addOption f value)
      | some ⟨f, none⟩ =>
        if f.takesValue then
          if looksLikeOption next then .error .usage else read known one rest (← g.addOption f next)
        else read known one (next :: rest) (← g.addOption f "")

/-! ### Commands -/

/-- The options of a run over module files. -/
def runFlags : List Flag :=
  [.config, .searchPath, .compress, .fakeRoot, .fakeRootName, .skipEnumDedup, .excludeModule, .help]

/-- What a run is told; it needs at least one file. -/
def runOptions (g : Given) : Except Refusal RunOptions := do
  if g.others.isEmpty then .error .usage
  else
    let compression := (g.value? .compress).bind fun name => (Compression.ofName name).toOption
    pure ⟨g.others, g.values .searchPath, compression, g.has .fakeRoot, g.value? .fakeRootName,
      g.has .skipEnumDedup, g.values .excludeModule⟩

/-- The command of a name with its arguments; also the settings file that these name. -/
def commandOf (name : String) (args : List String) : Except Refusal (Command × Option String) :=
  match name with
  | "generate" => do
    let (g, _) ← read (runFlags ++ [.output, .compact]) false args .empty
    pure (.generate (← runOptions g) (g.value? .output) (g.has .compact), g.value? .config)
  | "check" => do
    let (g, _) ← read runFlags false args .empty
    pure (.check (← runOptions g), g.value? .config)
  | "init-config" => do
    let (g, _) ← read [.config, .force, .help] false args .empty
    match g.others with
    | [] => pure (.initConfig "ygen.toml" (g.has .force), g.value? .config)
    | [path] => pure (.initConfig path (g.has .force), g.value? .config)
    | _ => .error .usage
  | "help" => .error (if args ∈ [] :: ["generate", "check", "init-config", "help"].map ([·]) then .help else .usage)
  | _ => .error .usage

/-- The command line that arguments are. A settings file named behind the command wins. -/
def Arguments.parse (args : List String) : Except Refusal Arguments := do
  let (g, rest) ← read [.config, .help] true args .empty
  match rest with
  | [] => .error .usage
  | name :: rest =>
    let (command, settingsFile) ← commandOf name rest
    pure ⟨settingsFile <|> g.value? .config, command⟩

end SchemaIr.CommandLine
