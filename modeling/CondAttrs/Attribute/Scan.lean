import CondAttrs.Attribute.Basic
import CondAttrs.Pointer
import CondAttrs.Settings.Basic

/-!
# Reading annotations

The grammar of directives. An attribute is a directive if the last segment of
its path is the directive's name; a documentation comment never is. A directive
has exactly one parenthesised group of arguments, and these are a condition, a
comma, and a list of attributes, which may stand between braces.

Reading is by recursion on the tokens inside the arguments. The first fault in
the order of the text, depth first, is the fault of the whole directive. Its
pointer is that of the annotation, followed by the indices that lead to the
nested attribute at fault.

## Main definitions

* `Body.parse`: the arguments of a directive.
* `Attribute.ofForm`: one attribute.
* `Attachment.scan`: the annotations at an attachment point. A malformed directive
  takes down no annotation but itself.
-/

namespace CondAttrs

namespace Body

/-- The condition, the first comma and the rest of a directive's arguments. -/
def splitCondition : List Token → Option (List Token × Token × List Token)
  | [] => none
  | t :: rest =>
    if t.isPunct ',' then some ([], t, rest)
    else (splitCondition rest).map fun (condition, comma, after) => (t :: condition, comma, after)

theorem splitCondition_append {tokens condition after : List Token} {comma : Token}
    (h : splitCondition tokens = some (condition, comma, after)) :
    condition ++ comma :: after = tokens := by
  induction tokens generalizing condition with
  | nil => cases h
  | cons t rest ih =>
    simp only [splitCondition] at h
    split at h
    · simp only [Option.some.injEq, Prod.mk.injEq] at h
      obtain ⟨rfl, rfl, rfl⟩ := h
      rfl
    · simp only [Option.map_eq_some_iff, Prod.mk.injEq, Prod.exists] at h
      obtain ⟨c, m, a, hs, rfl, rfl, rfl⟩ := h
      simp [ih hs]

/-- The tokens between the braces, if braces are all there is apart from one comma
behind them. -/
def braceContent : List Token → Option (List Token)
  | [group] => if group.isGroup .brace then some group.children else none
  | [group, comma] =>
    if group.isGroup .brace && comma.isPunct ',' then some group.children else none
  | _ => none

/-- The tokens that hold the attributes of a directive. -/
def listTokens (rest : List Token) : List Token :=
  (braceContent rest).getD rest

theorem sizeAll_listTokens_le (rest : List Token) :
    Token.sizeAll (listTokens rest) ≤ Token.sizeAll rest := by
  unfold listTokens braceContent
  split
  · rename_i group
    have := group.sizeAll_children_lt
    split <;> simp only [Option.getD_some, Option.getD_none, Token.sizeAll] <;> omega
  · rename_i group comma
    have := group.sizeAll_children_lt
    split <;> simp only [Option.getD_some, Option.getD_none, Token.sizeAll] <;> omega
  · simp

end Body

mutual

/-- The arguments of a directive: the tokens inside its parentheses, which stand
at `anchor`. -/
def Body.parse (s : Settings) (pointer : Text) (anchor : Position) (tokens : List Token) :
    Except Diagnostic (Body Attribute) :=
  match _h : Body.splitCondition tokens with
  | none =>
    .error
      ⟨.separatorMissing (Text.strip (Token.renderAll tokens)), pointer,
        (tokens.getLast?.map Token.pos).getD anchor⟩
  | some ([], comma, _) => .error ⟨.conditionMissing, pointer, comma.pos⟩
  | some (condition, comma, rest) =>
    match Attribute.ofEntries s pointer 0 (Form.entries (Body.listTokens rest)) with
    | .error d => .error d
    | .ok attributes =>
      .ok ⟨condition, comma.pos, (Body.braceContent rest).isSome, attributes⟩
termination_by 4 * Token.sizeAll tokens
decreasing_by
  have h₁ := Form.sizeAll_entries_le (Body.listTokens rest)
  have h₂ := Body.sizeAll_listTokens_le rest
  have h₃ := comma.size_pos
  rw [← Body.splitCondition_append _h, Token.sizeAll_append, Token.sizeAll]
  omega

/-- The attributes nested in a directive; the first one has the given index. -/
def Attribute.ofEntries (s : Settings) (pointer : Text) (index : Nat) (forms : List Form) :
    Except Diagnostic (List Attribute) :=
  match forms with
  | [] => .ok []
  | f :: rest =>
    match Attribute.ofEntry s (Pointer.entry pointer "annotations" index) f with
    | .error d => .error d
    | .ok attr =>
      match Attribute.ofEntries s pointer (index + 1) rest with
      | .error d => .error d
      | .ok attributes => .ok (attr :: attributes)
termination_by 4 * Form.sizeAll forms + 3
decreasing_by
  · rw [Form.sizeAll]
    omega
  · have := f.size_pos
    rw [Form.sizeAll]
    omega

/-- One attribute nested in a directive. A bare attribute has a path, and none is
an inner one. -/
def Attribute.ofEntry (s : Settings) (pointer : Text) (f : Form) : Except Diagnostic Attribute :=
  if f.isBare && f.path.isEmpty then .error ⟨.annotationExpected f.text, pointer, f.pos⟩
  else if f.isInner then .error ⟨.annotationInner f.text, pointer, f.pos⟩
  else Attribute.ofForm s pointer f
termination_by 4 * f.size + 2
decreasing_by omega

/-- One attribute: a directive if it has the directive's name. -/
def Attribute.ofForm (s : Settings) (pointer : Text) (f : Form) : Except Diagnostic Attribute :=
  if f.isDoc || f.name != s.directive then .ok (.plain f)
  else
    match _h : f.arguments with
    | [group] =>
      if group.isGroup .paren then
        match Body.parse s pointer group.pos group.children with
        | .error d => .error d
        | .ok body => .ok (.directive f body)
      else .error ⟨.argumentsMalformed s.directive f.text, pointer, f.pos⟩
    | _ => .error ⟨.argumentsMalformed s.directive f.text, pointer, f.pos⟩
termination_by 4 * f.size + 1
decreasing_by
  have h₁ := f.sizeAll_arguments_le
  have h₂ := group.sizeAll_children_lt
  rw [_h] at h₁
  simp only [Token.sizeAll] at h₁
  omega

end

namespace Attachment

/-- The annotation that a form is. -/
def ofForm (s : Settings) (pointer : Text) (f : Form) : Attachment :=
  match Attribute.ofForm s pointer f with
  | .ok attr => .accepted attr
  | .error d => .failed f d

/-- The annotations that the forms of a list are. -/
def ofForms (s : Settings) (pointer : Text) (forms : List Form) : List Attachment :=
  forms.mapIdx fun index f => ofForm s (Pointer.entry pointer "annotations" index) f

/-- The annotations at the start of a token list, and the rest. -/
def scan (s : Settings) (pointer : Text) (tokens : List Token) : List Attachment × List Token :=
  (ofForms s pointer (Form.readAll tokens).1, (Form.readAll tokens).2)

end Attachment

end CondAttrs
