import CondAttrs.Text.Digit
import CondAttrs.Text.Display

/-!
# Command lines

The grammar of command lines. An option has a long name and may take a value; the
value follows as a word of its own or behind an equals sign. A long name may be
shortened as long as it stays unambiguous. A word that starts with a dash is an
option, unless it is a negative number or holds a blank; behind the word `--` no
word is. That word is never a value: an option that has it behind its equals sign
stands without one.

The option that asks for help also has a short name, a dash and a letter. What
follows the letter is read as further short names in the same word.

Words are classified first, all of them, and then read from left to right. The
first fault is reported. A missing option is reported in preference to words that
nothing asked for.
-/

namespace CondAttrs.Usage

/-- An option that a command knows. -/
structure Spec where
  /-- The name, with its dashes. -/
  name : Text
  /-- Whether a value follows. -/
  takesValue : Bool
  /-- Whether the command needs the option. -/
  required : Bool := false
deriving DecidableEq

/-- The option that asks for help, known to every command. -/
def help : Spec := ⟨"--help", false, false⟩

/-- The letter of the short name of the option that asks for help. -/
def helpLetter : Char := 'h'

/-- The short name of the option that asks for help. -/
def helpShort : Text := ['-', helpLetter]

/-- How an option is called in messages. -/
def Spec.label (s : Spec) : Text :=
  if s = help then helpShort ++ "/" ++ s.name else s.name

/-- What is wrong with a command line. -/
inductive Fault where
  /-- A shortened name fits several options. -/
  | ambiguous (word : Text) (names : List Text)
  /-- An option lacks its value. -/
  | valueMissing (option : Spec)
  /-- An option that takes no value has one. -/
  | valueUnexpected (option : Spec) (value : Text)
  /-- Options that the command needs are missing. -/
  | optionsMissing (options : List Spec)
  /-- There are words that nothing asked for. -/
  | unrecognized (words : List Text)

/-- The sentence for a fault. -/
def Fault.message : Fault → Text
  | ambiguous word names =>
    "ambiguous option: " ++ word ++ " could match " ++ Text.join ", " names
  | valueMissing option => "argument " ++ option.label ++ ": expected one argument"
  | valueUnexpected option value =>
    "argument " ++ option.label ++ ": ignored explicit argument " ++ Text.display value
  | optionsMissing options =>
    "the following arguments are required: " ++ Text.join ", " (options.map Spec.label)
  | unrecognized words => "unrecognized arguments: " ++ Text.join " " words

/-! ## Words -/

/-- A word of a command line. -/
inductive Word where
  /-- A value. -/
  | value (text : Text)
  /-- The word `--`. -/
  | separator
  /-- An option, with the value behind its equals sign. -/
  | option (spec : Spec) (attached : Option Text)
  /-- An option that the command does not know. -/
  | unknown (text : Text)

/-- The word behind which there are no options. -/
def separatorText : Text := "--"

/-- What stands before the first equals sign, and what behind it. -/
def splitEquals (t : Text) : Text × Option Text :=
  match t.dropWhile (· ≠ '=') with
  | [] => (t, none)
  | _ :: value => (t.takeWhile (· ≠ '='), some value)

/-- Whether a word is a negative number: digits, or digits, a point and digits. A
line feed may stand at the end. -/
def isNegativeNumber : Text → Bool
  | '-' :: rest =>
    let body := if rest.getLast? = some '\n' then rest.dropLast else rest
    let fraction := body.dropWhile Text.isDecimalDigit
    match fraction with
    | [] => !body.isEmpty
    | '.' :: digits => !digits.isEmpty && digits.all Text.isDecimalDigit
    | _ => false
  | _ => false

/-- The option of exactly that name. -/
def exactly? (specs : List Spec) (name : Text) : Option Spec :=
  if name = helpShort then some help else (help :: specs).find? fun s => s.name = name

/-- What remains behind the short name of help when all further short names are
taken off: nothing at all, or a text that is no short name. -/
def beyondShort (attached : Text) : Option Text :=
  match attached.dropWhile (· = helpLetter) with
  | [] => if attached.isEmpty then some [] else none
  | other => some other

/-- The option of exactly that name with something attached to it. -/
def attach (name : Text) (spec : Spec) (attached : Text) : Word :=
  .option spec (if name = helpShort then beyondShort attached else some attached)

/-- The class of a word that starts with a dash and is no exact name. -/
def classifyOther (specs : List Spec) (word : Text) : Except Fault Word :=
  let (name, attached) := splitEquals word
  let candidates := if separatorText.isPrefixOf word then
      (help :: specs).filter fun s => name.isPrefixOf s.name
    else []
  match candidates with
  | [spec] => .ok (.option spec attached)
  | _ :: _ :: _ => .error (.ambiguous word (candidates.map Spec.name))
  | [] =>
    if helpShort.isPrefixOf word then .ok (attach helpShort help (word.drop helpShort.length))
    else if isNegativeNumber word || word.contains ' ' then .ok (.value word)
    else .ok (.unknown word)

/-- The class of a word. -/
def classify (specs : List Spec) (word : Text) : Except Fault Word :=
  if word.head? ≠ some '-' || word.length = 1 then .ok (.value word)
  else
    match exactly? specs word with
    | some spec => .ok (.option spec none)
    | none =>
      match splitEquals word with
      | (name, some value) =>
        match exactly? specs name with
        | some spec => .ok (attach name spec value)
        | none => classifyOther specs word
      | (_, none) => classifyOther specs word

/-- The classes of all words. -/
def classifyAll (specs : List Spec) : List Text → Except Fault (List Word)
  | [] => .ok []
  | word :: rest =>
    if word = separatorText then .ok (.separator :: rest.map .value)
    else do
      let first ← classify specs word
      let others ← classifyAll specs rest
      return first :: others

/-! ## Reading -/

/-- What a command line asks for. -/
inductive Request where
  /-- Help. -/
  | help
  /-- A run with the given options, in order, and words that nothing asked for. -/
  | run (given : List (Spec × Option Text)) (extra : List Text)

/-- The value behind an equals sign; the separator is none. -/
def attachedValue (text : Text) : Option Text :=
  if text = separatorText then none else some text

/-- Reads the classified words from left to right. -/
def read (given : List (Spec × Option Text)) (extra : List Text) :
    List Word → Except Fault Request
  | [] => .ok (.run given extra)
  | .value text :: rest => read given (extra ++ [text]) rest
  | .separator :: rest => read given (extra ++ [separatorText]) rest
  | .unknown text :: rest => read given (extra ++ [text]) rest
  | .option spec (some value) :: rest =>
    if spec.takesValue then read (given ++ [(spec, attachedValue value)]) extra rest
    else .error (.valueUnexpected spec value)
  | .option spec none :: rest =>
    if spec = help then .ok .help
    else if !spec.takesValue then read (given ++ [(spec, none)]) extra rest
    else
      match rest with
      | .value text :: rest => read (given ++ [(spec, some text)]) extra rest
      | _ => .error (.valueMissing spec)

/-- The options of a command line, or none if it asks for help. -/
def parse (specs : List Spec) (words : List Text) :
    Except Fault (Option (List (Spec × Option Text))) := do
  match ← read [] [] (← classifyAll specs words) with
  | .help => return none
  | .run given extra =>
    let missing := specs.filter fun s => s.required && !given.any fun (g, _) => g = s
    if !missing.isEmpty then throw (.optionsMissing missing)
    if !extra.isEmpty then throw (.unrecognized extra)
    return some given

/-- What an option was given, if it was; of a repeated option the last counts. -/
def value? (given : List (Spec × Option Text)) (spec : Spec) : Option (Option Text) :=
  given.reverse.lookup spec

end CondAttrs.Usage
