import CondAttrs.Text.Display
import CondAttrs.Token.Delimiter

/-!
# Faults

What can be wrong with a source text, as a cause and not as a sentence. A fault
is lexical (the text does not divide into balanced tokens), or belongs to a
directive (its arguments do not fit the grammar), to an invocation (the
arguments handed over with a single item), or to a declaration that is passed
through as it stands. The first three kinds are errors; the last are warnings.

Code, message, expectation and finding are functions of the cause. They are
stated here once, and no other module spells out a message.
-/

namespace CondAttrs

/-- How much a diagnostic weighs. -/
inductive Severity where
  | error
  | warning
deriving DecidableEq

/-- The word for a severity. -/
def Severity.label : Severity → Text
  | error => "error"
  | warning => "warning"

/-- The cause of a diagnostic. -/
inductive Fault where
  /-- A block comment whose end is missing. -/
  | commentUnterminated
  /-- A character with which no token starts. -/
  | characterInvalid (c : Char)
  /-- A raw string whose closing quote and hashes are missing. -/
  | rawUnterminated (hashes : Nat)
  /-- A string, byte string or character literal whose closing quote is missing. -/
  | literalUnterminated (quote : Char)
  /-- A single quote that starts neither a character literal nor a lifetime. -/
  | characterUnterminated (found : Option Char)
  /-- A closing bracket that is not the partner of the innermost open one. -/
  | delimiterUnbalanced (found : Delimiter) (innermost : Option Delimiter)
  /-- An opening bracket without a partner. -/
  | delimiterUnclosed (opened : Delimiter)
  /-- A directive without exactly one parenthesised group of arguments. -/
  | argumentsMalformed (directive : Text) (found : Text)
  /-- Directive arguments without a comma. -/
  | separatorMissing (found : Text)
  /-- Directive arguments that start with a comma. -/
  | conditionMissing
  /-- An entry of a directive that is no annotation and starts with no path. -/
  | annotationExpected (found : Text)
  /-- An inner annotation among the entries of a directive. -/
  | annotationInner (found : Text)
  /-- Invocation arguments that are not a predicate and a list of annotations. -/
  | argumentUnexpected (directive : Text) (found : Text)
  /-- A declaration of a known shape whose tokens do not fit that shape. -/
  | declarationMalformed (expected : Text) (found : Option Text)
  /-- A declaration of no known shape. -/
  | declarationUnsupported (found : Option Text)
  /-- Tokens behind a complete declaration. -/
  | trailingTokens (shape : Text) (found : Text)
deriving DecidableEq

namespace Fault

/-- The declaration shapes that are taken apart, in alphabetical order. -/
def supportedShapes : List Text :=
  [ "const", "enum", "extern crate", "fn", "macro invocation", "static", "struct", "trait",
    "trait alias", "type", "use" ]

/-- What is reported when the text ends where something was needed. -/
def endOfInput : Text := "end of input"

/-- The identifier of the kind of fault. -/
def code : Fault → Text
  | commentUnterminated => "E_TOKEN_COMMENT_UNTERMINATED"
  | characterInvalid _ => "E_TOKEN_CHARACTER_INVALID"
  | rawUnterminated _ => "E_TOKEN_LITERAL_UNTERMINATED"
  | literalUnterminated _ => "E_TOKEN_LITERAL_UNTERMINATED"
  | characterUnterminated _ => "E_TOKEN_LITERAL_UNTERMINATED"
  | delimiterUnbalanced _ _ => "E_TOKEN_DELIMITER_UNBALANCED"
  | delimiterUnclosed _ => "E_TOKEN_DELIMITER_UNCLOSED"
  | argumentsMalformed _ _ => "E_DIRECTIVE_ARGS_MALFORMED"
  | separatorMissing _ => "E_DIRECTIVE_SEPARATOR_MISSING"
  | conditionMissing => "E_DIRECTIVE_CONDITION_MISSING"
  | annotationExpected _ => "E_DIRECTIVE_ANNOTATION_EXPECTED"
  | annotationInner _ => "E_DIRECTIVE_ANNOTATION_INNER"
  | argumentUnexpected _ _ => "E_INVOCATION_ARGUMENT_UNEXPECTED"
  | declarationMalformed _ _ => "W_DECLARATION_MALFORMED"
  | declarationUnsupported _ => "W_DECLARATION_UNSUPPORTED"
  | trailingTokens _ _ => "W_DECLARATION_TRAILING_TOKENS"

/-- A declaration that is passed through only deserves a warning. -/
def severity : Fault → Severity
  | declarationMalformed _ _ => .warning
  | declarationUnsupported _ => .warning
  | trailingTokens _ _ => .warning
  | _ => .error

/-- The sentence shown to the author of the source text. -/
def message : Fault → Text
  | commentUnterminated => "unterminated block comment"
  | characterInvalid c => "unexpected character " ++ Text.display [c]
  | rawUnterminated _ => "unterminated raw string literal"
  | literalUnterminated _ => "unterminated literal"
  | characterUnterminated _ => "unterminated character literal"
  | delimiterUnbalanced found _ => "unexpected closing delimiter `" ++ [found.closing] ++ "`"
  | delimiterUnclosed opened => "unclosed delimiter `" ++ [opened.opening] ++ "`"
  | argumentsMalformed directive _ =>
    "expected attribute arguments in parentheses: `" ++ directive ++ "(...)`"
  | separatorMissing _ => "expected `,` after the configuration predicate"
  | conditionMissing => "expected a configuration predicate before `,`"
  | annotationExpected _ => "expected an attribute"
  | annotationInner _ => "expected an outer attribute, found an inner attribute"
  | argumentUnexpected directive _ =>
    "unexpected arguments: expected `predicate, attributes` after `" ++ directive ++ "`"
  | declarationMalformed expected _ =>
    "expected " ++ expected ++ "; declaration passed through unchanged"
  | declarationUnsupported _ => "unsupported declaration; passed through unchanged"
  | trailingTokens shape _ =>
    "unexpected tokens after the " ++ shape ++ " declaration; passed through unchanged"

/-- What would have been right. -/
def expected : Fault → Text
  | commentUnterminated => "*/"
  | characterInvalid _ => "token"
  | rawUnterminated hashes => '"' :: List.replicate hashes '#'
  | literalUnterminated quote => [quote]
  | characterUnterminated _ => "'"
  | delimiterUnbalanced _ (some innermost) => [innermost.closing]
  | delimiterUnbalanced _ none => endOfInput
  | delimiterUnclosed opened => [opened.closing]
  | argumentsMalformed directive _ => directive ++ "(...)"
  | separatorMissing _ => ","
  | conditionMissing => "configuration predicate"
  | annotationExpected _ => "#[meta], doc comment or meta"
  | annotationInner _ => "#[meta]"
  | argumentUnexpected _ _ => "predicate, attributes"
  | declarationMalformed expected _ => expected
  | declarationUnsupported _ => Text.join ", " supportedShapes
  | trailingTokens _ _ => "end of declaration"

/-- What stood there instead. -/
def got : Fault → Text
  | commentUnterminated => endOfInput
  | characterInvalid c => [c]
  | rawUnterminated _ => endOfInput
  | literalUnterminated _ => endOfInput
  | characterUnterminated (some c) => [c]
  | characterUnterminated none => endOfInput
  | delimiterUnbalanced found _ => [found.closing]
  | delimiterUnclosed _ => endOfInput
  | argumentsMalformed _ found => found
  | separatorMissing found => if found.isEmpty then "empty arguments" else found
  | conditionMissing => ","
  | annotationExpected found => found
  | annotationInner found => found
  | argumentUnexpected _ found => found
  | declarationMalformed _ found => found.getD endOfInput
  | declarationUnsupported found => found.getD endOfInput
  | trailingTokens _ found => found

end Fault

end CondAttrs
