import Statechart.Router.Run
import Statechart.Json.Parser
import Statechart.View.Value
import Statechart.Files

/- The commands: check a chart, run one on given events, write the default settings.

   A command is a function of the files it reads and of the environment. What it does outside is
   its result, which the command line carries out. -/
namespace Statechart

structure RunOptions where
  chart : String
  events : List String := []
  arguments : Option String := none
  trace : Bool := false
deriving DecidableEq, Repr

inductive Command where
  | check (chart : String)
  | run (options : RunOptions)
  | initConfig (path : String)
deriving DecidableEq, Repr

structure CommandLine where
  /-- The file of settings; it goes before the one that the environment names. -/
  config : Option String := none
  command : Command
deriving DecidableEq, Repr

inductive Verb where
  | run
  | check
  | initConfig
deriving DecidableEq, Repr

def Verb.ofName? : String → Option Verb
  | "run" => some .run
  | "check" => some .check
  | "init-config" => some .initConfig
  | _ => none

inductive Refusal where
  | usage
  | help (topic : Option Verb)
  | version
deriving DecidableEq, Repr

inductive CommandError where
  | unreadable (path : String)
  | malformed (path : String)
  | eventData (event : String)
  | argumentsNotJson
  | argumentsOfType (type : String)
  | settings (error : SettingsError)
  | invalid (fault : Fault)
  | router (error : RouterError)

def CommandError.message : CommandError → String
  | .unreadable path => "cannot read '" ++ path ++ "'"
  | .malformed path => "'" ++ path ++ "' does not hold a chart"
  | .eventData event => "the data of event '" ++ event ++ "' is not JSON"
  | .argumentsNotJson => "--args must be JSON"
  | .argumentsOfType type => "--args must be a JSON object, got " ++ type
  | .settings error => error.message
  | .invalid fault => fault.message
  | .router error => error.message

structure CommandResult where
  code : Nat := 0
  output : String := ""
  complaint : Option String := none
  directory : Option String := none
  written : Option (String × String) := none

namespace CommandLine

inductive Switch where
  | config
  | event
  | arguments
  | trace
  | help
  | version
deriving DecidableEq, Repr

def switchesOf : Option Verb → List Switch
  | none => [.config, .help, .version]
  | some .run => [.config, .event, .arguments, .trace, .help]
  | some _ => [.config, .help]

def Switch.takesValue : Switch → Bool
  | .config | .event | .arguments => true
  | .trace | .help | .version => false

def longSwitches : List (String × Switch) :=
  [("--config", .config), ("--event", .event), ("--args", .arguments), ("--trace", .trace),
   ("--help", .help), ("--version", .version)]

def shortSwitches : List (Char × Switch) :=
  [('c', .config), ('e', .event), ('a', .arguments), ('h', .help), ('V', .version)]

def cutAtEquals (s : String) : String × Option String :=
  match s.toList.span (· ≠ '=') with
  | (_, []) => (s, none)
  | (before, _ :: after) => (String.ofList before, some (String.ofList after))

def switch? (word : String) : Option (Switch × Option String) :=
  match word.toList with
  | '-' :: '-' :: _ =>
    let (name, value) := cutAtEquals word
    (longSwitches.lookup name).map (·, value)
  | '-' :: letter :: rest =>
    let value := match rest with
      | [] => none
      | '=' :: value => some (String.ofList value)
      | value => some (String.ofList value)
    (shortSwitches.lookup letter).map (·, value)
  | _ => none

def looksLikeSwitch (word : String) : Bool :=
  match word.toList with
  | '-' :: _ :: _ => true
  | _ => false

structure Level where
  names : List String := []
  config : Option String := none
  events : List String := []
  arguments : Option String := none
  trace : Bool := false

namespace Level

/-- Takes note of a switch. All but events are given once, and no path is empty. -/
def note (l : Level) (topic : Option Verb) (value : String) : Switch → Except Refusal Level
  | .help => .error (.help topic)
  | .version => .error .version
  | .event => .ok { l with events := l.events ++ [value] }
  | .trace => if l.trace then .error .usage else .ok { l with trace := true }
  | .arguments =>
    if l.arguments.isSome then .error .usage else .ok { l with arguments := some value }
  | .config =>
    if l.config.isSome || value == "" then .error .usage else .ok { l with config := some value }

def noteWord (l : Level) (topic : Option Verb) (word : String) (rest : List String) :
    Except Refusal (Level × List String) :=
  match switch? word with
  | none => .error .usage
  | some (switch, value) =>
    if !(switchesOf topic).contains switch then .error .usage
    else if !switch.takesValue then
      if value.isSome && word.toList.take 2 == ['-', '-'] then .error .usage
      else do return (← l.note topic "" switch, rest)
    else
      match value, rest with
      | some value, _ => do return (← l.note topic value switch, rest)
      | none, [] => .error .usage
      | none, value :: rest =>
        if looksLikeSwitch value then .error .usage
        else do return (← l.note topic value switch, rest)

end Level

def nameOf (l : Level) : Except Refusal String :=
  match l.names with
  | [name] => .ok name
  | _ => .error .usage

def addName (l : Level) (name : String) : Except Refusal Level :=
  if l.names.isEmpty && name != "" then .ok { l with names := [name] } else .error .usage

def readCommand (verb : Verb) : Nat → Level → List String → Except Refusal Level
  | 0, l, _ => .ok l
  | _, l, [] => .ok l
  | fuel + 1, l, word :: rest =>
    if word == "--" then rest.foldlM addName l
    else if looksLikeSwitch word then do
      let (l, rest) ← l.noteWord (some verb) word rest
      readCommand verb fuel l rest
    else do readCommand verb fuel (← addName l word) rest

def readHelp : List String → Refusal
  | [] => .help none
  | ["help"] => .help none
  | [name] => match Verb.ofName? name with
    | some verb => .help (some verb)
    | none => .usage
  | _ => .usage

/-- The words up to a command's name, and the command. Settings given after the name go before
    those given in front of it. -/
def readWords : Nat → Level → List String → Except Refusal CommandLine
  | 0, _, _ => .error .usage
  | _, _, [] => .error .usage
  | fuel + 1, outer, word :: rest =>
    if looksLikeSwitch word then do
      let (outer, rest) ← outer.noteWord none word rest
      readWords fuel outer rest
    else if word == "help" then .error (readHelp rest)
    else
      match Verb.ofName? word with
      | none => .error .usage
      | some verb => do
        let l ← readCommand verb rest.length {} rest
        let name ← nameOf l
        let config := l.config.or outer.config
        return match verb with
          | .check => { config, command := .check name }
          | .initConfig => { config, command := .initConfig name }
          | .run =>
            { config
              command := .run
                { chart := name, events := l.events, arguments := l.arguments, trace := l.trace } }

def read (words : List String) : Except Refusal CommandLine := readWords words.length {} words

end CommandLine

namespace Refusal

def configLine : String := "  -c, --config <CONFIG>  YAML config file (overrides RSCX_CONFIG)\n"

def helpLine : String := "  -h, --help             Print help\n"

def chartLines : String :=
  "Arguments:\n  <CHART>  Chart definition (.json, .yaml or .yml)\n\nOptions:\n"

def helpText : Option Verb → String
  | none => "Hierarchical statechart runner\n\nUsage: rscx [OPTIONS] <COMMAND>\n\nCommands:\n"
      ++ "  run          Run a chart, feeding it the given events in order\n"
      ++ "  check        Validate and compile a chart without running it\n"
      ++ "  init-config  Write the default configuration to a file\n"
      ++ "  help         Print this message or the help of the given subcommand(s)\n\nOptions:\n"
      ++ configLine ++ helpLine ++ "  -V, --version          Print version\n"
  | some .run => "Run a chart, feeding it the given events in order\n\n"
      ++ "Usage: rscx run [OPTIONS] <CHART>\n\n" ++ chartLines ++ configLine
      ++ "  -e, --event <EVENTS>   Event to send, as NAME or NAME=JSON (repeatable)\n"
      ++ "  -a, --args <ARGS>      JSON object overriding top-level data declarations\n"
      ++ "      --trace            Log state entry, exit and transitions\n" ++ helpLine
  | some .check => "Validate and compile a chart without running it\n\n"
      ++ "Usage: rscx check [OPTIONS] <CHART>\n\n" ++ chartLines ++ configLine ++ helpLine
  | some .initConfig => "Write the default configuration to a file\n\n"
      ++ "Usage: rscx init-config [OPTIONS] <PATH>\n\nArguments:\n  <PATH>  Output path\n\n"
      ++ "Options:\n" ++ configLine ++ helpLine

def result : Refusal → CommandResult
  | .usage => { code := 2, complaint := some (helpText none) }
  | .help topic => { output := helpText topic }
  | .version => { output := "rscx 0.1.0\n" }

end Refusal

namespace Command

/-- The part of a file's name after its last dot; a leading dot does not count. -/
def extension? (path : String) : Option String :=
  let name := ((Text.split '/' path).getLast?).getD ""
  match (Text.split '.' name).reverse with
  | [] | [_] => none
  | [_, ""] => none
  | last :: _ => some last

def loadChart (read : String → Option String) (path : String) :
    Except CommandError Source.ChartDef :=
  match read path with
  | none => .error (.unreadable path)
  | some text =>
    let isYaml := extension? path = some "yaml" || extension? path = some "yml"
    let manuscript := if isYaml then Yaml.manuscript? text else Json.manuscript? text
    match manuscript.bind (·.read Source.readChart) with
    | some source => .ok source
    | none => .error (.malformed path)

def compileChart (source : Source.ChartDef) : Except CommandError Chart :=
  match Chart.compile [] source with
  | .ok chart => .ok chart
  | .error fault => .error (.invalid fault)

def readEvent (h : Heap) (text : String) : Except CommandError (Heap × Event) := do
  let (name, data) := CommandLine.cutAtEquals text
  let (h, data) ← match data.map Json.parse with
    | none => pure (h, Value.undefined)
    | some none => throw (.eventData name)
    | some (some j) => pure (h.ofJson j)
  match EventName.parse (Text.trim name) with
  | .ok name => return (h, { name, type := .external, data })
  | .error fault => throw (.invalid fault)

def readEvents (h : Heap) (texts : List String) : Except CommandError (Heap × List Event) :=
  texts.foldlM
    (fun (acc : Heap × List Event) text => do
      let (h, e) ← readEvent acc.1 text
      return (h, acc.2 ++ [e]))
    (h, [])

def readArguments (h : Heap) : Option String → Except CommandError (Heap × Option Ref)
  | none => .ok (h, none)
  | some text =>
    match Json.parse text with
    | none => .error .argumentsNotJson
    | some j =>
      match h.ofJson j with
      | (h, .object r) => .ok (h, some r)
      | (_, v) => .error (.argumentsOfType v.typeName)

def runSettings (read : String → Option String) (env : Environment) (config : Option String)
    (trace : Bool) : Except CommandError Settings :=
  let path := config.or (env.lookup Settings.fileVariable)
  match Settings.load (path.map fun p => (p, read p)) env with
  | .ok s => .ok { s with tracing := s.tracing || trace, idleTimeoutMs := 0 }
  | .error e => .error (.settings e)

def drive (chart : Chart) (arguments : Option Ref) (events : List Event) :
    RouterE (SessionId × Outcome) := do
  let id ← RouterM.createSession chart none arguments
  RouterM.startSession id
  RouterM.settle RouterM.patience
  let started ← RouterM.sessionOf id
  match RouterM.startResult? started with
  | some (.error e) => throw e
  | _ => pure ()
  events.forM fun e => do RouterM.send (← RouterM.sessionOf id) e
  RouterM.close id
  RouterM.settle RouterM.patience
  let s ← RouterM.sessionOf id
  return (id, s.outcome.getD { status := s.status })

def runText (h : Heap) (id : SessionId) (o : Outcome) : String :=
  let result := match h.toJson o.result with
    | .ok j => j
    | .error e => .string ("<" ++ e.message ++ ">")
  (Json.mkObject
    [("session", .string id), ("status", .string o.status.name), ("result", result),
     ("error", .optionalText o.error)]).pretty ++ "\n"

def runChart (read : String → Option String) (settings : Settings) (options : RunOptions) :
    Except CommandError CommandResult := do
  let source ← loadChart read options.chart
  let (h, events) ← readEvents Heap.initial options.events
  let chart ← compileChart source
  let (h, arguments) ← readArguments h options.arguments
  let router ← match Router.create settings (.memory []) with
    | .ok r => pure ({ r with memory := { r.memory with heap := h } }.register
        (source.name.getD options.chart) chart)
    | .error e => throw (.router e)
  match (drive chart arguments events).run router with
  | (.error e, _) => throw (.router e)
  | (.ok (id, o), r) =>
    let well := o.status = .completed || o.status = .queueClosed
    return { code := if well then 0 else 1
             output := runText r.memory.heap id o
             directory := settings.snapshotDir }

def perform (read : String → Option String) (env : Environment) (line : CommandLine) :
    Except CommandError CommandResult :=
  match line.command with
  | .check path => do
    let source ← loadChart read path
    let chart ← compileChart source
    return { output := path ++ ": ok (" ++ toString chart.stateCount ++ " states, checksum "
               ++ chart.checksum ++ ")\n" }
  | .initConfig path => return { written := some (path, ({} : Settings).text) }
  | .run options => do
    let settings ← runSettings read env line.config options.trace
    runChart read settings options

def outcome (read : String → Option String) (env : Environment) (words : List String) :
    CommandResult :=
  match CommandLine.read words with
  | .error refusal => refusal.result
  | .ok line =>
    match perform read env line with
    | .ok r => r
    | .error e => { code := 1, complaint := some e.message }

def reads (env : Environment) (words : List String) : List String :=
  match CommandLine.read words with
  | .error _ => []
  | .ok line =>
    match line.command with
    | .check path => [path]
    | .initConfig _ => []
    | .run options => options.chart :: (line.config.or (env.lookup Settings.fileVariable)).toList

end Command

def CommandResult.carryOut (r : CommandResult) (f : Files) : Nat × String × Files :=
  if r.directory.any (!f.canMakeDirectory ·) then (1, "", f)
  else
    match r.written with
    | none => (r.code, r.output, f)
    | some (path, content) =>
      match f.write? path content with
      | some f => (r.code, r.output, f)
      | none => (1, "", f)

end Statechart
