import Descent.CommandLine.Basic

/-! # Reading arguments

`readCommand` turns the arguments of the program into a command. Options stand anywhere behind the
word for the command, until a lone double hyphen makes every further word an ordinary one. A value
follows its option as a word of its own, or attached to it: `--fuel 9`, `--fuel=9`, `-s TEXT`,
`-sTEXT`. A value that stands alone is checked when the next option or ordinary word is reached, so
that a word nobody knows is reported before it; an attached value is checked at once.
-/

namespace Descent.CommandLine

/-- Options without a value. -/
inductive Flag where
  | help
  | json
  | eval
  | compact
  | verbose
deriving Repr, DecidableEq

/-- Places for one value. -/
inductive Place where
  | path
  | source
  | fuel
  | color
deriving Repr, DecidableEq

def Place.label : Place → String
  | path => "SOURCE"
  | source => "--source"
  | fuel => "--fuel"
  | color => "--color"

inductive Choice where
  | flag (f : Flag)
  | value (p : Place)
deriving Repr, DecidableEq

namespace Choice

/-- The name of an option behind a double hyphen. -/
def long? : Choice → Option String
  | flag .help => some "help"
  | flag .json => some "json"
  | flag .eval => some "eval"
  | flag .compact => some "compact"
  | flag .verbose => none
  | value .path => none
  | value .source => some "source"
  | value .fuel => some "fuel"
  | value .color => some "color"

/-- The letter of an option behind a single hyphen. -/
def short? : Choice → Option Char
  | flag .help => some 'h'
  | flag .verbose => some 'v'
  | value .source => some 's'
  | _ => none

end Choice

/-- The words for the commands. -/
inductive Verb where
  | symbolize
  | parse
  | dump
  | trace
deriving Repr, DecidableEq

namespace Verb

def ofWord? : String → Option Verb
  | "symbolize" => some symbolize
  | "parse" => some parse
  | "dump" => some dump
  | "trace" => some trace
  | _ => none

def choices : Verb → List Choice
  | symbolize => [.flag .help, .value .path, .value .source, .flag .json, .value .color]
  | parse =>
    [.flag .help, .value .path, .value .source, .flag .eval, .flag .compact, .value .fuel,
      .value .color]
  | dump => [.flag .help]
  | trace =>
    [.flag .help, .value .path, .value .source, .flag .verbose, .value .fuel, .value .color]

end Verb

/-! ## Values -/

/-- The largest cap that can be given. -/
def maxFuel : Nat := 4294967295

/-- The most requests for detail that are counted. -/
def maxDetail : Nat := 255

/-- A cap: decimal digits behind an optional sign, in range. -/
def fuel? (word : String) : Option Nat :=
  let (negative, digits) := match word.toList with
    | '-' :: cs => (true, cs)
    | '+' :: cs => (false, cs)
    | cs => (false, cs)
  if digits.isEmpty || !digits.all Char.isDigit then none
  else
    let n := digits.foldl (fun n d => 10 * n + (d.toNat - '0'.toNat)) 0
    if n ≤ maxFuel && (!negative || n = 0) then some n else none

/-! ## Reading word by word -/

/-- The arguments read so far. -/
structure Reading where
  choices : List Choice
  path : Option String := none
  source : Option String := none
  fuel : Option Nat := none
  color : Option ColorChoice := none
  flags : List Flag := []
  detail : Nat := 0
  /-- The place that the last value is for, and the value unless it is still to come. -/
  pending : Option (Place × Option String) := none
  /-- An ordinary word has been read. -/
  hasWord : Bool := false
  /-- Every further word is an ordinary one. -/
  literal : Bool := false

namespace Reading

/-- Puts a value in its place. -/
def store (r : Reading) (p : Place) (value : Option String) : Except ArgumentError Reading :=
  match value with
  | none => .error (.invalidValue p.label)
  | some v =>
    match p with
    | .path => if v = "" then .error (.invalidValue p.label) else .ok { r with path := some v }
    | .source =>
      if r.source.isSome then .error (.conflict p.label) else .ok { r with source := some v }
    | .fuel =>
      if r.fuel.isSome then .error (.conflict p.label)
      else
        match fuel? v with
        | some n => .ok { r with fuel := some n }
        | none => .error (.malformedNumber v)
    | .color =>
      if r.color.isSome then .error (.conflict p.label)
      else
        match ColorChoice.ofWord? v with
        | some c => .ok { r with color := some c }
        | none => .error (.invalidValue p.label)

/-- Puts the pending value in its place. -/
def settle (r : Reading) : Except ArgumentError Reading :=
  match r.pending with
  | none => .ok r
  | some (p, value) => { r with pending := none }.store p value

/-- Takes an option that has a value, attached or to come. -/
def give (r : Reading) (p : Place) (attached : Option String) : Except ArgumentError Reading := do
  let r ← r.settle
  match attached with
  | some v => r.store p (some v)
  | none => .ok { r with pending := some (p, none) }

/-- Takes an option without a value. The request for detail is counted; the others stand once. -/
def raise (r : Reading) (f : Flag) : Except ArgumentError Reading := do
  let r ← r.settle
  match f with
  | .help => .error .help
  | .verbose => .ok { r with detail := min (r.detail + 1) maxDetail }
  | f =>
    if r.flags.contains f then .error (.conflict ((Choice.flag f).long?.getD ""))
    else .ok { r with flags := f :: r.flags }

/-- Reads what follows a double hyphen. -/
def readLong (r : Reading) (word : String) (body : List Char) : Except ArgumentError Reading :=
  let name := String.ofList (body.takeWhile (· ≠ '='))
  let attached := match body.dropWhile (· ≠ '=') with
    | [] => none
    | _ :: value => some (String.ofList value)
  match r.choices.find? (·.long? = some name), attached with
  | none, _ => .error (.unknownArgument word)
  | some (.flag _), some _ => .error (.needlessValue ("--" ++ name))
  | some (.flag f), none => r.raise f
  | some (.value p), attached => r.give p attached

/-- Reads the letters that follow a single hyphen. Behind the letter of an option with a value, what
is left is the value. -/
def readShort (r : Reading) (word : String) : List Char → Except ArgumentError Reading
  | [] => .ok r
  | c :: cs =>
    match r.choices.find? (·.short? = some c) with
    | none => .error (.unknownArgument word)
    | some (.flag f) => do (← r.raise f).readShort word cs
    | some (.value p) =>
      r.give p <| match cs with
        | [] => none
        | '=' :: value => some (String.ofList value)
        | value => some (String.ofList value)

/-- Reads a word as options, if it looks like some. -/
def readOptions? (r : Reading) (word : String) : Option (Except ArgumentError Reading) :=
  match word.toList with
  | '-' :: '-' :: body => some (r.readLong word body)
  | '-' :: c :: cs => some (r.readShort word (c :: cs))
  | _ => none

/-- Reads an ordinary word: the path, if the command takes one and has none yet. -/
def readPath (r : Reading) (word : String) : Except ArgumentError Reading :=
  if r.choices.contains (.value .path) && !r.hasWord then do
    let r ← r.settle
    .ok { r with pending := some (.path, some word), hasWord := true }
  else .error (.unknownArgument word)

def readWord (r : Reading) (word : String) : Except ArgumentError Reading :=
  if r.literal then r.readPath word
  else if word = "--" then .ok { r with literal := true }
  else
    match r.readOptions? word with
    | some result => result
    | none =>
      match r.pending with
      | some (p, none) => .ok { r with pending := some (p, some word) }
      | _ => r.readPath word

/-- The origin that has been given, at most one. -/
def origin (r : Reading) : Except ArgumentError (Option Origin) :=
  match r.source, r.path with
  | some _, some _ => .error (.conflict Place.source.label)
  | some text, none => .ok (some (.inline text))
  | none, path => .ok (path.map .ofPath)

/-- The command that all words together make. -/
def command (r : Reading) (v : Verb) : Except ArgumentError Command := do
  let r ← r.settle
  let origin ← r.origin
  let color := r.color.getD .auto
  return match v with
    | .dump => .dump
    | .symbolize => .onSource (.symbolize (r.flags.contains .json)) origin color
    | .parse =>
      .onSource (.parse (r.flags.contains .eval) (r.flags.contains .compact) r.fuel) origin color
    | .trace => .onSource (.trace r.detail r.fuel) origin color

end Reading

/-! ## Commands -/

/-- The word stands for a command, or for help on one. -/
def isCommandWord (word : String) : Bool := word = "help" || (Verb.ofWord? word).isSome

/-- Answers a request for help on the command that the words name. -/
def helpOn : List String → ArgumentError
  | [] => .help
  | word :: rest =>
    if isCommandWord word then
      match rest with
      | [] => .help
      | next :: _ => .unknownCommand next
    else .unknownCommand word

/-- The command that the arguments of the program make. -/
def readCommand : List String → Except ArgumentError Command
  | [] => .error .noArguments
  | ["--"] => .error .noArguments
  | "--" :: word :: _ =>
    .error (if isCommandWord word then .unknownArgument word else .unknownCommand word)
  | "help" :: words => .error (helpOn words)
  | word :: words =>
    match Verb.ofWord? word with
    | some v => do
      let r ← words.foldlM Reading.readWord { choices := v.choices }
      r.command v
    | none =>
      match ({ choices := [.flag .help] } : Reading).readOptions? word with
      | some (.error e) => .error e
      | _ => .error (.unknownCommand word)

end Descent.CommandLine
