import PocketLisp.Text.DecimalDigit

/-!
# The words of a command line

Each word of a command line is an option, a positional argument, or the separator after which all
words are positional. An option may have more attached to it, after an equals sign or, if it is of
one letter, directly; a long option may be shortened to any beginning that fits only one. A word
that looks like an option and is none is kept as unknown, unless it looks like a negative number or
holds a space; these are positional.
-/

namespace PocketLisp.CommandLine

/-- What an option asks for. -/
inductive Flag where
  | help
  | debug
  | version
  deriving Repr, DecidableEq

/-- The spellings of the options, in the order in which they are listed. -/
def spellings : List (String × Flag) :=
  [("-h", .help), ("--help", .help), ("--debug", .debug), ("--version", .version)]

/-- How messages name an option: all its spellings. -/
def Flag.display (flag : Flag) : String :=
  String.intercalate "/" ((spellings.filter (·.2 == flag)).map Prod.fst)

/-- A word and what it is. -/
inductive Word where
  | positional (text : String)
  | separator
  | option (flag : Flag) (spelling : String) (attached : Option String)
  | unknown (text : String)
  deriving Repr, DecidableEq

namespace Word

/-- Splits at the first equals sign. -/
def splitEquals (chars : List Char) : List Char × Option (List Char) :=
  match chars.dropWhile (· != '=') with
  | _ :: value => (chars.takeWhile (· != '='), some value)
  | [] => (chars, none)

/-- The options that a word beginning with two dashes may be short for. -/
def longMatches (chars : List Char) : List Word :=
  let (start, value) := splitEquals chars
  (spellings.filter fun (spelling, _) => start.isPrefixOf spelling.toList).map
    fun (spelling, flag) => option flag spelling (value.map String.ofList)

/-- The options that a word beginning with one dash may stand for. -/
def shortMatches (chars : List Char) : List Word :=
  spellings.filterMap fun (spelling, flag) =>
    if spelling.toList == chars.take 2 then
      some (option flag spelling (some (String.ofList (chars.drop 2))))
    else if chars.isPrefixOf spelling.toList then some (option flag spelling none)
    else none

/-- Whether the characters are one or more decimal digits. -/
def isDigits (chars : List Char) : Bool :=
  !chars.isEmpty && chars.all fun c => (Text.digitValue? c).isSome

/-- Removes one newline at the end. -/
def dropFinalNewline (chars : List Char) : List Char :=
  if chars.getLast? == some '\n' then chars.dropLast else chars

/-- Whether a word reads as a negative number: a dash, then digits, which may have a point among
or before them but not after. -/
def looksNegative : List Char → Bool
  | '-' :: rest =>
    let body := dropFinalNewline rest
    let whole := body.takeWhile fun c => (Text.digitValue? c).isSome
    isDigits body ||
      match body.drop whole.length with
      | '.' :: fraction => isDigits fraction
      | _ => false
  | _ => false

/-- The complaint about a word that is short for several options. -/
def ambiguous (text : String) (candidates : List Word) : String :=
  let names := candidates.filterMap fun
    | option _ spelling _ => some spelling
    | _ => none
  "ambiguous option: " ++ text ++ " could match " ++ String.intercalate ", " names

/-- What a word is that begins with a dash and spells no option in full. -/
def classifyDashed (text : String) (chars : List Char) : Except String Word :=
  let candidates :=
    match chars with
    | '-' :: '-' :: _ => longMatches chars
    | _ => shortMatches chars
  match candidates with
  | [word] => .ok word
  | _ :: _ :: _ => .error (ambiguous text candidates)
  | [] =>
    if looksNegative chars || chars.contains ' ' then .ok (positional text)
    else .ok (unknown text)

/-- What a word is that stands before any separator; the complaint if it is short for several
options. -/
def classify (text : String) : Except String Word :=
  let chars := text.toList
  match chars with
  | '-' :: _ :: _ =>
    if text == "--" then .ok separator
    else
      match spellings.lookup text with
      | some flag => .ok (option flag text none)
      | none =>
        let (start, value) := splitEquals chars
        match spellings.lookup (String.ofList start) with
        | some flag => .ok (option flag (String.ofList start) (value.map String.ofList))
        | none => classifyDashed text chars
  | _ => .ok (positional text)

/-- What the words of a command line are; the complaint about the first that is short for several
options. -/
def classifyAll : List String → Except String (List Word)
  | [] => .ok []
  | text :: rest => do
    let word ← classify text
    match word with
    | separator => pure (separator :: rest.map positional)
    | word => pure (word :: (← classifyAll rest))

end Word

end PocketLisp.CommandLine
