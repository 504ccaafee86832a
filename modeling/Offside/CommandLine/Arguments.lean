import Offside.Text.Digit
import Offside.Text.Quoted

/-!
# Arguments

The command takes the path of one script and two flags, `-h` or `--help` and `-v` or
`--verbose`.

* The letters of flags may be put together behind one dash, with an equals sign
  behind the first of them or not.  The long name of a flag may be cut short as long
  as it fits one flag only.
* No flag takes a value, and behind the letter of a flag stand letters of flags only.
* Behind `--` everything is a path.
* A word that looks like a negative number, and a word with a blank in it that is no
  flag, is a path.

Flags are looked at in order and the first help or mistake among them decides; only
then does it matter whether there is one path and nothing left over.
-/

namespace Offside.CommandLine

/-- The flags. -/
inductive Flag
  | help
  | verbose
deriving DecidableEq, Repr

namespace Flag

/-- The flags in the order in which they are listed. -/
def all : List Flag := [help, verbose]

/-- The letter of a flag. -/
def letter : Flag → Char
  | help => 'h'
  | verbose => 'v'

/-- The long name of a flag. -/
def name : Flag → String
  | help => "--help"
  | verbose => "--verbose"

/-- How a message names a flag. -/
def label (flag : Flag) : String :=
  "-" ++ flag.letter.toString ++ "/" ++ flag.name

/-- The flag with a given letter. -/
def ofLetter? (letter : Char) : Option Flag :=
  all.find? fun flag => flag.letter == letter

end Flag

/-- What is wrong with the arguments. -/
inductive UsageFault
  /-- A long name that is cut too short. -/
  | ambiguous (word : String) (flags : List Flag)
  /-- A flag with a value. -/
  | surplusValue (flag : Flag) (value : String)
  /-- No script is named. -/
  | missingScript
  /-- Words that mean nothing. -/
  | unrecognized (words : List String)
deriving DecidableEq, Repr

/-- What is said about a mistake in the arguments. -/
def UsageFault.message : UsageFault → String
  | ambiguous word flags =>
    "ambiguous option: " ++ word ++ " could match " ++ ", ".intercalate (flags.map Flag.name)
  | surplusValue flag value =>
    "argument " ++ flag.label ++ ": ignored explicit argument " ++ Quoted.ofString value
  | missingScript => "the following arguments are required: script"
  | unrecognized words => "unrecognized arguments: " ++ " ".intercalate words

/-- What the arguments ask for. -/
inductive Request
  | help
  | run (script : String) (verbose : Bool)
deriving DecidableEq, Repr

/-! ## Words -/

/-- What a word before `--` is. -/
inductive Word
  /-- A path. -/
  | plain (text : String)
  /-- The letter of a flag and the letters behind it. -/
  | letters (flag : Flag) (tail : List Char)
  /-- A flag, maybe with a value. -/
  | named (flag : Flag) (value : Option String)
  /-- A word that begins with a dash and means nothing. -/
  | unknown (text : String)
deriving DecidableEq, Repr

/-- Whether the text behind a dash makes a negative number: digits, maybe with a point
before the last of them.  A line feed at the end does not count. -/
def looksNumeric (tail : List Char) : Bool :=
  let body := if tail.getLast? = some '\n' then tail.dropLast else tail
  match body.dropWhile Digit.isDecimalDigit with
  | [] => !body.isEmpty
  | '.' :: fraction => !fraction.isEmpty && fraction.all Digit.isDecimalDigit
  | _ => false

/-- A word that begins with a dash and is no flag. -/
def classifyOther (word : String) (tail : List Char) : Word :=
  if looksNumeric tail || tail.contains ' ' then .plain word else .unknown word

/-- A word that begins with the letter of a flag, by what follows that letter. -/
def classifyLetters (flag : Flag) : List Char → Word
  | ['='] => .named flag (some "")
  | '=' :: tail => .letters flag tail
  | tail => .letters flag tail

/-- Says what a word before `--` is. -/
def classify (word : String) : Except UsageFault Word :=
  match word.toList with
  | '-' :: '-' :: tail =>
    let name := "--" ++ String.ofList (tail.takeWhile (· != '='))
    let value := (tail.dropWhile (· != '=')).tail?.map String.ofList
    match Flag.all.filter fun flag => flag.name.startsWith name with
    | [] => .ok (classifyOther word ('-' :: tail))
    | [flag] => .ok (.named flag value)
    | flags => .error (.ambiguous word flags)
  | '-' :: letter :: tail =>
    match Flag.ofLetter? letter with
    | some flag => .ok (classifyLetters flag tail)
    | none => .ok (classifyOther word (letter :: tail))
  | _ => .ok (.plain word)

/-- The flags that letters put together mean.  Text behind the letter of a flag that
does not begin with another such letter would be a value. -/
def spell (flag : Flag) : List Char → Except UsageFault (List Flag)
  | [] => .ok [flag]
  | letter :: tail =>
    match Flag.ofLetter? letter with
    | none => .error (.surplusValue flag (String.ofList (letter :: tail)))
    | some next => (spell next tail).map (flag :: ·)

/-! ## All words -/

/-- What the words so far come to. -/
structure Progress where
  /-- The path, if there was one. -/
  script : Option String
  /-- Whether the path was the last word. -/
  justNamed : Bool
  /-- Whether the log was asked for. -/
  verbose : Bool
  /-- Words that mean nothing. -/
  leftOver : List String
deriving Repr

namespace Progress

/-- No words yet. -/
def start : Progress := ⟨none, false, false, []⟩

/-- One more path, or one too many. -/
def name (progress : Progress) (path : String) : Progress :=
  match progress.script with
  | none => { progress with script := some path, justNamed := true }
  | some _ => { progress with justNamed := false, leftOver := progress.leftOver ++ [path] }

/-- One more word of flags. -/
def raise (progress : Progress) (flags : List Flag) : Progress :=
  { progress with
    justNamed := false
    verbose := progress.verbose || flags.contains .verbose }

/-- One more word that means nothing. -/
def leave (progress : Progress) (word : String) : Progress :=
  { progress with justNamed := false, leftOver := progress.leftOver ++ [word] }

/-- The words behind `--`, which is dropped beside the path. -/
def nameRest (progress : Progress) (words : List String) : Progress :=
  match progress.script, words with
  | none, path :: others =>
    { progress with script := some path, leftOver := progress.leftOver ++ others }
  | some _, _ =>
    let separator := if progress.justNamed then [] else ["--"]
    { progress with leftOver := progress.leftOver ++ separator ++ words }
  | none, [] => progress

/-- What is asked for in the end. -/
def request (progress : Progress) : Except UsageFault Request :=
  match progress.script with
  | none => .error .missingScript
  | some script =>
    if progress.leftOver.isEmpty then .ok (.run script progress.verbose)
    else .error (.unrecognized progress.leftOver)

end Progress

/-- Goes through classified words, and then through the words behind `--`. -/
def interpret (behind : List String) (hasSeparator : Bool) :
    Progress → List Word → Except UsageFault Request
  | progress, [] =>
    if hasSeparator then (progress.nameRest behind).request else progress.request
  | progress, .plain path :: words => interpret behind hasSeparator (progress.name path) words
  | progress, .unknown text :: words =>
    interpret behind hasSeparator (progress.leave text) words
  | _, .named flag (some value) :: _ => .error (.surplusValue flag value)
  | _, .named .help none :: _ => .ok .help
  | progress, .named .verbose none :: words =>
    interpret behind hasSeparator (progress.raise [.verbose]) words
  | progress, .letters flag tail :: words =>
    match spell flag tail with
    | .error fault => .error fault
    | .ok flags =>
      if flags.contains .help then .ok .help
      else interpret behind hasSeparator (progress.raise flags) words

/-- Says what the arguments ask for. -/
def request (arguments : List String) : Except UsageFault Request := do
  let words ← (arguments.takeWhile (· != "--")).mapM classify
  let behind := arguments.dropWhile (· != "--")
  interpret behind.tail (!behind.isEmpty) .start words

/-! ## Texts -/

/-- The name of the command in messages. -/
def commandName : String := "python -m mython"

/-- One line on how to use the command. -/
def usage : String :=
  "usage: " ++ commandName ++ " [-v] <script.my>\n"

/-- The text of the help flag. -/
def help : String :=
  usage ++ "\npositional arguments:\n  script\n\noptions:\n" ++
    "  -h, --help     show this help message and exit\n" ++
    "  -v, --verbose  log debug output to stderr\n"

/-- What is written about a mistake in the arguments. -/
def complaint (fault : UsageFault) : String :=
  usage ++ commandName ++ ": error: " ++ fault.message ++ "\n"

end Offside.CommandLine
