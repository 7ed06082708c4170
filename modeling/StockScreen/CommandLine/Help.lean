import StockScreen.CommandLine.Usage
import StockScreen.Text.Plain

namespace StockScreen.Help

def commandAbout : Command → Text
  | .serve => "Run the HTTP API".toList
  | .stocks => "Print every stock in the dataset".toList
  | .filter => "Print the stocks matching a query".toList
  | .parse => "Show the conditions a query parses into and the segments it drops".toList
  | .fields => "List the field names a query can reference".toList

def commandStory : Command → Text
  | .serve =>
    "Run the HTTP API.\n\nscreener serve screener serve --bind 127.0.0.1:9000 ".toList ++
      "--allow-origin http://localhost:5173".toList
  | .filter =>
    "Print the stocks matching a query.\n\n".toList ++
      "screener filter \"P/E Ratio < 20 AND ROE > 0.15\"".toList
  | command => commandAbout command

def programAbout : Text :=
  "Screen a stock dataset with simple `field op value AND ...` queries".toList

def helpAbout : Text := "Print this message or the help of the given subcommand(s)".toList

def queryAbout : Text := "Query text, e.g. \"P/E Ratio < 20 AND ROE > 0.15\"".toList

def settingAbout (long : Bool) : Setting → Text
  | .format => "Output format for results".toList
  | .pretty => "Pretty-print JSON output with indentation".toList
  | .dataset => "CSV dataset to load".toList
  | .bind => "Socket address to listen on".toList
  | .allowOrigin =>
    "Allowed CORS origin. Repeat for several; defaults to the built-in list".toList
  | .help =>
    if long then "Print help (see a summary with '-h')".toList
    else "Print help (see more with '--help')".toList
  | .version => "Print version".toList

def formatAbout : List (Text × Text) :=
  [("table".toList, "Aligned text columns".toList), ("json".toList, "Single JSON document".toList),
    ("ndjson".toList, "One JSON value per line".toList)]

def defaultText : Setting → Option Text
  | .format => some "json".toList
  | .dataset => some defaultDataset
  | .bind => some defaultAddress.text
  | _ => none

def note (t : Text) : Text := '[' :: t ++ [']']

def notes (environment : Environment) (setting : Setting) : List Text :=
  let environmentNote := match setting.environmentName? with
    | some name => [note ("env: ".toList ++ name ++ '=' :: (environment name).getD [])]
    | none => []
  let defaultNote := match defaultText setting with
    | some t => [note ("default: ".toList ++ t)]
    | none => []
  environmentNote ++ defaultNote

def bold (t : Text) : Text := "\x1b[1m".toList ++ t ++ "\x1b[0m".toList

def flag (mark : Text → Text) (setting : Setting) : Text :=
  let letter := match setting.letter? with
    | some c => ' ' :: ' ' :: mark ['-', c] ++ [',', ' ']
    | none => List.replicate 6 ' '
  let value := match setting.placeholder? with
    | some t => ' ' :: '<' :: t ++ ['>']
    | none => []
  letter ++ mark ('-' :: '-' :: setting.name) ++ value

def hang (column : Nat) (t : Text) : Text :=
  t.flatMap fun c => if c = '\n' then c :: List.replicate column ' ' else [c]

def secondColumn (firsts : List Text) : Nat := Table.width firsts + 2

def columns (rows : List (Text × Text)) : Text :=
  let column := secondColumn (rows.map Prod.fst)
  Text.ofLines (rows.map fun (first, second) => Text.padRight column first ++ second)

def shortSetting (environment : Environment) (column : Nat) (setting : Setting) : Text :=
  let values := match setting with
    | .format => [note ("possible values: ".toList ++ Text.join ", ".toList (formatAbout.map Prod.fst))]
    | _ => []
  let about :=
    Text.join [' '] (settingAbout false setting :: notes environment setting ++ values)
  flag bold setting ++ List.replicate (column - (flag id setting).length) ' ' ++ hang column about

def shortOptions (environment : Environment) (settings : List Setting) : List Text :=
  settings.map (shortSetting environment (secondColumn (settings.map (flag id))))

def paragraphColumn : Nat := 10

def indent (t : Text) : Text :=
  List.replicate paragraphColumn ' ' ++ hang paragraphColumn t

def longSetting (environment : Environment) (setting : Setting) : List Text :=
  let values := match setting with
    | .format =>
      [] :: indent "Possible values:".toList :: formatAbout.map fun (name, about) =>
        let space := List.replicate (7 - name.length) ' '
        indent ('-' :: ' ' :: bold name ++ ':' :: space ++ about)
    | _ => []
  let closing := match notes environment setting with
    | [] => []
    | lines => indent [] :: lines.map indent
  flag bold setting :: indent (settingAbout true setting) :: values ++ closing

def options (environment : Environment) (level : Option Command) (long : Bool) : Text :=
  "Options:\n".toList ++
    if long then
      Text.join ['\n'] ((settings level).map fun setting =>
        Text.ofLines (longSetting environment setting))
    else Text.ofLines (shortOptions environment (settings level))

def commands : Text :=
  "Commands:\n".toList ++ columns
    ((Command.all.map fun command => (' ' :: ' ' :: command.name, commandAbout command)) ++
      [("  help".toList, helpAbout)])

def argumentHelp (long : Bool) : Text :=
  "Arguments:\n  <QUERY>".toList ++
    (if long then '\n' :: indent queryAbout else ' ' :: ' ' :: queryAbout) ++ ['\n']

def paragraphs (parts : List Text) : Text := Text.join ['\n'] parts

def programHelp (environment : Environment) (long : Bool) : Text :=
  paragraphs
    [programAbout ++ ['\n'], "Usage: screener [OPTIONS] <COMMAND>\n".toList, commands,
      options environment none long]

def commandHelp (environment : Environment) (command : Command) (long : Bool) : Text :=
  let about := if long then commandStory command else commandAbout command
  let usage := "Usage: screener ".toList ++ command.name ++ " [OPTIONS]".toList ++
    (if command.takesQuery then " <QUERY>".toList else []) ++ ['\n']
  paragraphs
    ([about ++ ['\n'], usage] ++ (if command.takesQuery then [argumentHelp long] else []) ++
      [options environment (some command) long])

def helpHelp : Text :=
  paragraphs
    [helpAbout ++ ['\n'], "Usage: screener help [COMMAND]...\n".toList,
      "Arguments:\n  [COMMAND]...  Print help for the subcommand(s)\n".toList]

def marked (environment : Environment) (topic : Topic) (long : Bool) : Text :=
  match topic with
  | .program => programHelp environment long
  | .command command => commandHelp environment command long
  | .help => helpHelp

def text (environment : Environment) (topic : Topic) (long : Bool) : Text :=
  Text.plain (marked environment topic long)

end StockScreen.Help
