import CondAttrs.Declaration.Angle

/-!
# The members inside a group

The division of a group's tokens into the tokens of its members. Fields and
variants end with a comma outside angle brackets. A member of a trait ends with a
semicolon, or with a brace group outside angle brackets, which takes a semicolon
right behind it along. Behind a plain `=` a value begins; there angle brackets are
operators and are not counted, and braces belong to the value.

The scan starts anew with every member, so a member's end depends on its own
tokens only, and on the one behind it where a semicolon may follow a brace group.

## Main definitions

* `Chunk.spanField`, `Chunk.spanMember`: the first member.
* `Chunk.splitFields`, `Chunk.splitMembers`: all members.
-/

namespace CondAttrs

/-- Whether `t` is an equals sign that is no part of a longer operator. -/
def isPlainEquals (previous : Option Token) (t : Token) (next : Option Token) : Bool :=
  t.isPunct '=' &&
    !(t.isJoint '=' && next.any fun n => n.isPunct '=' || n.isPunct '>') &&
    !(previous.any fun p => "<>!=+-*/%^&|".toList.any fun c => p.isJoint c)

namespace Chunk

/-- What the scan of a member knows: the token before, the number of open angle
brackets, and whether a value has begun. -/
structure Progress where
  /-- The token before. -/
  previous : Option Token := none
  /-- The number of open angle brackets. -/
  depth : Nat := 0
  /-- Whether a plain `=` has been met outside angle brackets. -/
  inValue : Bool := false

/-- The scan behind one token. -/
def Progress.step (p : Progress) (t : Token) (next : Option Token) : Progress :=
  let inValue := p.inValue || (p.depth = 0 && isPlainEquals p.previous t next)
  { previous := some t
    depth := if inValue then p.depth else Angle.step p.previous t p.depth
    inValue := inValue }

/-! ## Fields and variants -/

/-- The tokens of a field or variant up to its comma, and the rest. -/
def spanField (p : Progress) : List Token → List Token × List Token
  | [] => ([], [])
  | t :: rest =>
    if p.depth = 0 && t.isPunct ',' then ([t], rest)
    else
      let after := spanField (p.step t rest.head?) rest
      (t :: after.1, after.2)

theorem spanField_append (p : Progress) (tokens : List Token) :
    (spanField p tokens).1 ++ (spanField p tokens).2 = tokens := by
  induction tokens generalizing p with
  | nil => rfl
  | cons t rest ih =>
    simp only [spanField]
    split <;> simp [ih]

theorem spanField_length_lt (p : Progress) (t : Token) (rest : List Token) :
    (spanField p (t :: rest)).2.length < (t :: rest).length := by
  have h := congrArg List.length (spanField_append p (t :: rest))
  have hpos : 0 < (spanField p (t :: rest)).1.length := by
    simp only [spanField]
    split <;> simp
  rw [List.length_append] at h
  omega

/-- The fields or variants of a group. -/
def splitFields : List Token → List (List Token)
  | [] => []
  | t :: rest => (spanField {} (t :: rest)).1 :: splitFields (spanField {} (t :: rest)).2
termination_by tokens => tokens.length
decreasing_by exact spanField_length_lt _ t rest

/-! ## Trait members -/

/-- The semicolon at the start of a token list, if there is one, and the rest. -/
def spanSemicolon : List Token → List Token × List Token
  | [] => ([], [])
  | t :: rest => if t.isPunct ';' then ([t], rest) else ([], t :: rest)

theorem spanSemicolon_append (tokens : List Token) :
    (spanSemicolon tokens).1 ++ (spanSemicolon tokens).2 = tokens := by
  cases tokens with
  | nil => rfl
  | cons t rest =>
    simp only [spanSemicolon]
    split <;> simp

/-- The tokens of a trait member up to its end, and the rest. -/
def spanMember (p : Progress) : List Token → List Token × List Token
  | [] => ([], [])
  | t :: rest =>
    if t.isPunct ';' then ([t], rest)
    else if p.depth = 0 && !p.inValue && t.isGroup .brace then
      (t :: (spanSemicolon rest).1, (spanSemicolon rest).2)
    else
      let after := spanMember (p.step t rest.head?) rest
      (t :: after.1, after.2)

theorem spanMember_append (p : Progress) (tokens : List Token) :
    (spanMember p tokens).1 ++ (spanMember p tokens).2 = tokens := by
  induction tokens generalizing p with
  | nil => rfl
  | cons t rest ih =>
    simp only [spanMember]
    split
    · simp
    · split <;> simp [ih, spanSemicolon_append]

theorem spanMember_length_lt (p : Progress) (t : Token) (rest : List Token) :
    (spanMember p (t :: rest)).2.length < (t :: rest).length := by
  have h := congrArg List.length (spanMember_append p (t :: rest))
  have hpos : 0 < (spanMember p (t :: rest)).1.length := by
    simp only [spanMember]
    split
    · simp
    · split <;> simp
  rw [List.length_append] at h
  omega

/-- The members of a trait. -/
def splitMembers : List Token → List (List Token)
  | [] => []
  | t :: rest => (spanMember {} (t :: rest)).1 :: splitMembers (spanMember {} (t :: rest)).2
termination_by tokens => tokens.length
decreasing_by exact spanMember_length_lt _ t rest

end Chunk

end CondAttrs
