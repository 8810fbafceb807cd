import Lox.Text.Quoted

/-!
# Command line arguments

One file at most, and the options `--help`, `--format` and `--tokens`, of which the last two exclude
each other. Long options may be cut short as long as they stay distinct, and `--` ends the options,
which may also follow the file. A lone dash, a negative numeral and an unknown option with a blank
in it are files even though they start with a dash.
-/
namespace Lox.CommandLine

/-- What a file can be written out as, instead of being run. -/
inductive Listing where
  | format
  | tokens
  deriving DecidableEq, Repr

/-- What the command line asks for. -/
inductive Request where
  | help
  | shell
  | run (file : String)
  | list (listing : Listing) (file : String)
  deriving DecidableEq, Repr

/-- The file that has to be read for a request. -/
def Request.file? : Request → Option String
  | help | shell => none
  | run file | list _ file => some file

/-- The options. -/
inductive Switch where
  | help
  | list (listing : Listing)
  deriving DecidableEq, Repr

/-- The long name of an option. -/
def Switch.long : Switch → String
  | help => "--help"
  | list .format => "--format"
  | list .tokens => "--tokens"

/-- How messages name an option. -/
def Switch.title : Switch → String
  | help => "-h/--help"
  | list listing => (list listing).long

/-- The options, in the order in which they are listed. -/
def Switch.all : List Switch := [.help, .list .format, .list .tokens]

/-- What is wrong with arguments. -/
inductive UsageError where
  /-- Arguments for which there is no place. -/
  | unrecognized (arguments : List String)
  /-- An option that another one before it excludes. -/
  | excluded (listing earlier : Listing)
  /-- An option with a value, which none of them takes. -/
  | unwantedValue (switch : Switch) (value : String)
  /-- A word that more than one option begins with. -/
  | ambiguous (argument : String) (matching : List Switch)
  | noFile
  deriving DecidableEq, Repr

/-- The wording of a usage error. -/
def UsageError.message : UsageError → String
  | unrecognized arguments => "unrecognized arguments: " ++ " ".intercalate arguments
  | excluded listing earlier =>
    "argument " ++ (Switch.list listing).title ++ ": not allowed with argument " ++
      (Switch.list earlier).title
  | unwantedValue switch value =>
    "argument " ++ switch.title ++ ": ignored explicit argument " ++ Text.quoted value
  | ambiguous argument matching =>
    "ambiguous option: " ++ argument ++ " could match " ++
      ", ".intercalate (matching.map Switch.long)
  | noFile => "--format and --tokens need a file"

/-- What an argument is by itself. -/
inductive Argument where
  | file (name : String)
  | switch (switch : Switch)
  | valued (switch : Switch) (value : String)
  /-- A word that looks like an option and is none. -/
  | unknown (word : String)
  /-- The mark behind which all arguments are files. -/
  | separator
  deriving DecidableEq, Repr

/-- The zero digits of the decimal numeral systems; the other nine digits follow each of them. -/
def zeroDigits : List Nat :=
  [0x30, 0x660, 0x6F0, 0x7C0, 0x966, 0x9E6, 0xA66, 0xAE6, 0xB66, 0xBE6, 0xC66, 0xCE6, 0xD66, 0xDE6,
    0xE50, 0xED0, 0xF20, 0x1040, 0x1090, 0x17E0, 0x1810, 0x1946, 0x19D0, 0x1A80, 0x1A90, 0x1B50,
    0x1BB0, 0x1C40, 0x1C50, 0xA620, 0xA8D0, 0xA900, 0xA9D0, 0xA9F0, 0xAA50, 0xABF0, 0xFF10, 0x104A0,
    0x10D30, 0x11066, 0x110F0, 0x11136, 0x111D0, 0x112F0, 0x11450, 0x114D0, 0x11650, 0x116C0,
    0x11730, 0x118E0, 0x11950, 0x11C50, 0x11D50, 0x11DA0, 0x16A60, 0x16AC0, 0x16B50, 0x1D7CE,
    0x1D7D8, 0x1D7E2, 0x1D7EC, 0x1D7F6, 0x1E140, 0x1E2F0, 0x1E950, 0x1FBF0]

/-- Whether a character is a decimal digit of any script. -/
def isAnyDigit (c : Char) : Bool :=
  zeroDigits.any fun first => first ≤ c.toNat && c.toNat < first + 10

/-- Whether the text behind a dash makes it a negative numeral: digits, or a point with digits
behind it and perhaps before it. One line break at the end does not count. -/
def isNumeral (text : List Char) : Bool :=
  let isDigits (digits : List Char) : Bool :=
    let digits := if digits.getLast? = some '\n' then digits.dropLast else digits
    !digits.isEmpty && digits.all isAnyDigit
  match text.dropWhile isAnyDigit with
  | '.' :: fraction => isDigits fraction
  | _ => isDigits text

/-- A word that starts with a dash and names no option. -/
def unmatched (text : List Char) : Argument :=
  if isNumeral (text.drop 1) || text.contains ' ' then .file (String.ofList text)
  else .unknown (String.ofList text)

/-- What stands behind `-h` in the same word: further options of one letter, of which only `h` is
known. Anything else is a value. -/
def Argument.ofCluster : List Char → Argument
  | [] => .switch .help
  | 'h' :: rest => ofCluster rest
  | value => .valued .help (String.ofList value)

/-- A word that begins with `-h`. An equals sign directly behind it is passed over, unless nothing
follows. -/
def Argument.ofShort : List Char → Argument
  | ['='] => .valued .help ""
  | '=' :: rest => ofCluster rest
  | rest => ofCluster rest

/-- A word with two dashes: the option that begins with it, and the value behind `=` if any. -/
def Argument.ofLong (text : List Char) : Except UsageError Argument :=
  let name := text.takeWhile (· ≠ '=')
  match Switch.all.filter (fun s => name.isPrefixOf s.long.toList), text.dropWhile (· ≠ '=') with
  | [], _ => .ok (unmatched text)
  | [only], [] => .ok (.switch only)
  | [only], _ :: value => .ok (.valued only (String.ofList value))
  | matching, _ => .error (.ambiguous (String.ofList text) matching)

/-- What a word is, if no separator stands before it. -/
def Argument.ofWord (word : String) : Except UsageError Argument :=
  match word.toList with
  | ['-', '-'] => .ok .separator
  | '-' :: '-' :: rest => ofLong ('-' :: '-' :: rest)
  | '-' :: 'h' :: rest => .ok (ofShort rest)
  | '-' :: c :: rest => .ok (unmatched ('-' :: c :: rest))
  | _ => .ok (.file word)

/-- What the words are. -/
def Argument.ofWords : List String → Except UsageError (List Argument)
  | [] => .ok []
  | word :: rest => do
    match ← ofWord word with
    | .separator => return .separator :: rest.map .file
    | argument => return argument :: (← ofWords rest)

/-- What has been read of the arguments. -/
structure Reading where
  file : Option String
  listing : Option Listing
  /-- Arguments for which there is no place. -/
  extra : List String
  /-- Whether the argument before was the file. -/
  atFile : Bool
  deriving DecidableEq, Repr

namespace Reading

/-- A reading before the first argument. -/
def start : Reading := ⟨none, none, [], false⟩

/-- The reading behind an argument for which there is no place. -/
def leave (r : Reading) (word : String) : Reading :=
  { r with extra := r.extra ++ [word], atFile := false }

/-- The reading behind a file. There is a place for one. -/
def takeFile (r : Reading) (name : String) : Reading :=
  match r.file with
  | none => { r with file := some name, atFile := true }
  | some _ => r.leave name

/-- The reading behind the separator, which has its place before the file and right behind it. -/
def takeSeparator (r : Reading) : Reading :=
  if r.file = none || r.atFile then { r with atFile := false } else r.leave "--"

/-- What is asked for, when all arguments have been read. -/
def request (r : Reading) : Except UsageError Request :=
  if r.extra ≠ [] then .error (.unrecognized r.extra)
  else match r.file, r.listing with
    | none, none => .ok .shell
    | none, some _ => .error .noFile
    | some file, none => .ok (.run file)
    | some file, some listing => .ok (.list listing file)

/-- What is asked for, behind the arguments that have been read. Help is given as soon as it is
asked for, whatever follows. -/
def requestAfter (r : Reading) : List Argument → Except UsageError Request
  | [] => r.request
  | .file name :: rest => (r.takeFile name).requestAfter rest
  | .separator :: rest => r.takeSeparator.requestAfter rest
  | .unknown word :: rest => (r.leave word).requestAfter rest
  | .valued switch value :: _ => .error (.unwantedValue switch value)
  | .switch .help :: _ => .ok .help
  | .switch (.list listing) :: rest =>
    if r.listing.getD listing = listing then
      { r with listing := some listing, atFile := false }.requestAfter rest
    else .error (.excluded listing (r.listing.getD listing))

end Reading

/-- What arguments ask for. All words are told apart before the first of them counts. -/
def Request.ofWords (words : List String) : Except UsageError Request := do
  Reading.start.requestAfter (← Argument.ofWords words)

example : Request.ofWords ["--form", "t"] = .ok (.list .format "t") := rfl
example : Request.ofWords ["t", "--", "--tokens"] = .error (.unrecognized ["--tokens"]) := rfl
example : Request.ofWords ["--tokens", "--format"] = .error (.excluded .format .tokens) := rfl
example : Request.ofWords ["-h=hx"] = .error (.unwantedValue .help "x") := rfl
example : Request.ofWords ["-1.5"] = .ok (.run "-1.5") := rfl

end Lox.CommandLine
