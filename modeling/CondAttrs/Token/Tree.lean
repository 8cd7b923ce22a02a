import CondAttrs.Token.Lexeme

/-!
# From lexemes to trees

The second half of reading a text: brackets are matched by a stack of the groups
that are still open. The first fault in the order of the text wins. A closing
bracket that is not the partner of the innermost open one is reported where it
stands; a lexical fault comes behind all lexemes; a bracket that is still open at
the end of a text without other faults is reported at the innermost one.

## Main definitions

* `Nesting.build`: the stack machine, by recursion on the lexemes.
* `tokenize`: the token trees of a text.
-/

namespace CondAttrs

namespace Nesting

/-- A group whose closing bracket has not been met: its opening lexeme, and the
tokens in front of it, last first. -/
structure Open where
  /-- The trivia in front of the opening bracket. -/
  leading : Text
  /-- Where the opening bracket stands. -/
  pos : Position
  /-- The brackets of the group. -/
  delimiter : Delimiter
  /-- The tokens before the group, in reverse. -/
  before : List Token

/-- Matches the brackets of the remaining lexemes. `stack` holds the open groups,
innermost first; `done` the tokens of the innermost one so far, in reverse. -/
def build (stack : List Open) (done : List Token) :
    List Lexeme → Except Diagnostic Text → Except Diagnostic TokenStream
  | [], .error d => .error d
  | [], .ok trailing =>
    match stack with
    | [] => .ok ⟨done.reverse, trailing⟩
    | innermost :: _ => .error (.lexical (.delimiterUnclosed innermost.delimiter) innermost.pos)
  | ⟨leading, pos, .atom a⟩ :: rest, ending => build stack (.atom leading pos a :: done) rest ending
  | ⟨leading, pos, .opening d⟩ :: rest, ending =>
    build (⟨leading, pos, d, done⟩ :: stack) [] rest ending
  | ⟨leading, pos, .closing d⟩ :: rest, ending =>
    match stack with
    | [] => .error (.lexical (.delimiterUnbalanced d none) pos)
    | innermost :: outer =>
      if d = innermost.delimiter then
        let group :=
          .group innermost.leading innermost.pos d done.reverse leading
        build outer (group :: innermost.before) rest ending
      else .error (.lexical (.delimiterUnbalanced d (some innermost.delimiter)) pos)

end Nesting

/-- The token trees of a lexed text. -/
def Lexing.tree (l : Lexing) : Except Diagnostic TokenStream :=
  Nesting.build [] [] l.lexemes l.ending

/-- The token trees of a text. -/
def tokenize (t : Text) : Except Diagnostic TokenStream :=
  (Lexing.ofText t).tree

end CondAttrs
