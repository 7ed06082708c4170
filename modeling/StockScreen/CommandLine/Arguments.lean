import StockScreen.CommandLine.Usage

/-!
Reading a command line. Settings of all commands may stand before the command or after it, where
the later one counts; a setting given twice on one side is a conflict. The value of an option is
looked at when the next argument is, so the first fault that is met need not be the leftmost.
-/

namespace StockScreen

structure Given where
  format : Option Format
  pretty : Bool
  dataset : Option Text
  address : Option Address
  origins : Option (List Text)

namespace Given

def nothing : Given := ⟨none, false, none, none, none⟩

def isNothing (g : Given) : Bool :=
  g.format.isNone && !g.pretty && g.dataset.isNone && g.address.isNone && g.origins.isNone

def has (g : Given) : Setting → Bool
  | .format => g.format.isSome
  | .pretty => g.pretty
  | .dataset => g.dataset.isSome
  | .bind => g.address.isSome
  | .allowOrigin => g.origins.isSome
  | _ => false

def take (g : Given) (setting : Setting) (value : Text) : Except Stop Given :=
  match setting with
  | .format =>
    match Format.names.lookup value with
    | some format => .ok { g with format := some format }
    | none => .error (.usage .invalidValue)
  | .dataset =>
    if value.isEmpty then .error (.usage .invalidValue)
    else .ok { g with dataset := some value }
  | .bind =>
    match Address.ofText? value with
    | some address => .ok { g with address := some address }
    | none => .error (.usage .refusedValue)
  | .allowOrigin =>
    .ok { g with origins := some (g.origins.getD [] ++ Text.splitAtChar ',' value) }
  | .pretty => .ok { g with pretty := true }
  | _ => .ok g

def takeOnce (g : Given) (setting : Setting) (value : Text) : Except Stop Given :=
  if g.has setting && setting != .allowOrigin then .error (.usage .argumentConflict)
  else g.take setting value

def takeEnvironment (g : Given) (environment : Environment) (settings : List Setting) :
    Except Stop Given :=
  settings.foldlM (fun given setting =>
    match setting.environmentName?.bind environment with
    | some value => if g.has setting then .ok given else given.take setting value
    | none => .ok given) g

end Given

/-- Reading at one level. An option waits for its value, or with its value for the next argument. -/
structure Reading where
  given : Given
  waiting : Option (Setting × Option Text)
  literal : Bool
  query : Option Text

namespace Reading

def begin : Reading := ⟨.nothing, none, false, none⟩

def needsValue (r : Reading) : Bool :=
  match r.waiting with
  | some (_, none) => true
  | _ => false

def resolve (r : Reading) : Except Stop Reading :=
  match r.waiting with
  | none => .ok r
  | some (_, none) => .error (.usage .invalidValue)
  | some (setting, some value) =>
    (r.given.takeOnce setting value).map fun given => { r with given := given, waiting := none }

def flag (r : Reading) (level : Option Command) (setting : Setting) (long : Bool) :
    Except Stop Reading := do
  let r ← r.resolve
  match setting with
  | .help =>
    .error (.help (match level with
      | none => .program
      | some command => .command command) long)
  | .version => .error .version
  | _ => (r.given.takeOnce setting []).map fun given => { r with given := given }

def splitAtEquals (t : Text) : Text × Option Text :=
  let name := t.takeWhile (· != '=')
  match t.drop name.length with
  | [] => (name, none)
  | _ :: value => (name, some value)

def longOption (r : Reading) (level : Option Command) (t : Text) : Except Stop Reading :=
  let (name, value) := splitAtEquals t
  match (settings level).find? fun setting => setting.name == name with
  | none => .error (.usage .unknownArgument)
  | some setting =>
    match setting.placeholder?, value with
    | none, none => r.flag level setting true
    | none, some _ => .error (.usage .tooManyValues)
    | some _, none => r.resolve.map fun r => { r with waiting := some (setting, none) }
    | some _, some value => do
      let r ← r.resolve
      let given ← r.given.takeOnce setting value
      return { r with given := given }

def shortOption (r : Reading) (level : Option Command) (letter : Char) : Except Stop Reading :=
  match (settings level).find? fun setting => setting.letter? == some letter with
  | none => .error (.usage .unknownArgument)
  | some setting => r.flag level setting false

def plainArgument (r : Reading) (level : Option Command) (t : Text) : Except Stop Reading :=
  match level with
  | none =>
    if r.literal && (t == "help".toList || (Command.named? t).isSome) then
      .error (.usage .unknownArgument)
    else .error (.usage .invalidSubcommand)
  | some command =>
    if command.takesQuery && r.query.isNone then
      r.resolve.map fun r => { r with query := some t }
    else .error (.usage .unknownArgument)

def argument (r : Reading) (level : Option Command) (t : Text) : Except Stop Reading :=
  if r.literal then r.plainArgument level t
  else
    match t with
    | ['-', '-'] => .ok { r with literal := true }
    | '-' :: '-' :: rest => r.longOption level rest
    | '-' :: letter :: _ => r.shortOption level letter
    | _ =>
      match r.waiting with
      | some (setting, none) => .ok { r with waiting := some (setting, some t) }
      | _ => r.plainArgument level t

end Reading

structure Supplied where
  line : Given
  all : Given
  query : Option Text

def Reading.finish (r : Reading) (environment : Environment) (level : Option Command) :
    Except Stop Supplied := do
  let r ← r.resolve
  let all ← r.given.takeEnvironment environment (settings level)
  return ⟨r.given, all, r.query⟩

namespace Arguments

def readCommand (environment : Environment) (command : Command) (arguments : List Text) :
    Except Stop Supplied := do
  let r ← arguments.foldlM (fun r t => r.argument (some command) t) Reading.begin
  let supplied ← r.finish environment (some command)
  if command.takesQuery && supplied.query.isNone then .error (.usage .missingArgument)
  else return supplied

def helpTopic : List Text → Except Stop Topic
  | [] => .ok .program
  | [name] =>
    if name = "help".toList then .ok .help
    else
      match Command.named? name with
      | some command => .ok (.command command)
      | none => .error (.usage .invalidSubcommand)
  | _ => .error (.usage .invalidSubcommand)

def action (command : Command) (query : Text) (given : Given) : Action :=
  match command with
  | .serve => .serve (given.address.getD defaultAddress) (given.origins.getD [])
  | .stocks => .stocks
  | .filter => .filter query
  | .parse => .parse query
  | .fields => .fields

def invocation (command : Command) (before after : Supplied) : Invocation where
  format := (after.all.format.or before.all.format).getD .json
  pretty := after.all.pretty || before.all.pretty
  dataset := ((after.line.dataset.or before.line.dataset).or
    (after.all.dataset.or before.all.dataset)).getD defaultDataset
  action := action command (after.query.getD []) after.all

def readFrom (environment : Environment) : Reading → List Text → Except Stop Invocation
  | r, [] => do
    let supplied ← r.finish environment none
    .error (.usage (if supplied.all.isNothing then .nothingAsked else .missingSubcommand))
  | r, t :: rest =>
    let isName := !r.literal && !r.needsValue
    if isName && t == "help".toList then do
      let topic ← helpTopic rest
      .error (.help topic true)
    else
      match if isName then Command.named? t else none with
      | some command => do
        let after ← readCommand environment command rest
        let before ← r.finish environment none
        return invocation command before after
      | none => do
        let r ← r.argument none t
        readFrom environment r rest

def read (environment : Environment) (arguments : List Text) : Except Stop Invocation :=
  readFrom environment .begin arguments

end Arguments

end StockScreen
