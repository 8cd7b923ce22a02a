import CondAttrs.Attribute.Scan
import CondAttrs.Declaration.Basic
import CondAttrs.Declaration.Chunk
import CondAttrs.Declaration.Take

/-!
# Reading shapes

The readers of the eleven shapes. The kind of a declaration is chosen by looking
at its first tokens; the reader of that kind then takes the declaration apart and
refuses tokens that do not fit. The members of enumerations, structures and
traits are attachment points of their own.

## Main definitions

* `Kind.select`: the kind of the declaration at the start of a token list.
* `Members.fields`, `Members.variants`, `Members.traitMembers`: attachment points
  inside a group.
* `Shape.take`: the reader of a kind.

## Main statements

* `Shape.take_consumes`: a declaration takes at least one token.
-/

namespace CondAttrs

/-! ## Words -/

/-- The words that may stand in front of `fn`. -/
def functionQualifiers : List Text :=
  ["const", "async", "unsafe", "safe", "extern"]

/-- The words that may stand in front of `trait`. -/
def traitQualifiers : List Text :=
  ["unsafe", "auto"]

/-- Whether a token is one of the given words. -/
def Token.isOneOf (words : List Text) (t : Token) : Bool :=
  t.ident?.any words.contains

/-- The qualifiers at the start of a token list, and the rest. The literal behind
`extern` names a calling convention and counts as a qualifier. -/
def spanQualifiers (words : List Text) :
    (previous : Option Token) → List Token → List Token × List Token
  | _, [] => ([], [])
  | previous, t :: rest =>
    if t.isOneOf words || (t.isLiteral && previous.any (Token.isWord "extern")) then
      (t :: (spanQualifiers words (some t) rest).1, (spanQualifiers words (some t) rest).2)
    else ([], t :: rest)

theorem spanQualifiers_append (words : List Text) (previous : Option Token)
    (tokens : List Token) :
    (spanQualifiers words previous tokens).1 ++ (spanQualifiers words previous tokens).2 =
      tokens := by
  induction tokens generalizing previous with
  | nil => rfl
  | cons t rest ih =>
    simp only [spanQualifiers]
    split <;> simp [ih]

/-- The visibility at the start of a token list, and the rest. -/
def spanVisibility : List Token → List Token × List Token
  | [] => ([], [])
  | t :: rest =>
    if t.isWord "pub" then
      match rest with
      | scope :: more => if scope.isGroup .paren then ([t, scope], more) else ([t], rest)
      | [] => ([t], [])
    else ([], t :: rest)

theorem spanVisibility_append (tokens : List Token) :
    (spanVisibility tokens).1 ++ (spanVisibility tokens).2 = tokens := by
  unfold spanVisibility
  split
  · rfl
  · split
    · split
      · split <;> rfl
      · rfl
    · rfl

/-! ## Invocations -/

/-- The segments of the path of an invocation up to its mark, and the rest, which
starts with the mark. -/
def spanInvocation : List Token → Option (List Token × List Token)
  | segment :: mark :: rest =>
    if !segment.isIdent then none
    else if mark.isPunct '!' then some ([segment], mark :: rest)
    else
      match rest with
      | second :: more =>
        if AttributePath.isSeparator mark second then
          (spanInvocation more).map fun (path, after) => (segment :: mark :: second :: path, after)
        else none
      | [] => none
  | _ => none

/-- The path of an invocation up to its mark, and the rest. A joint colon in front
takes the token behind it along. -/
def spanInvocationPath : List Token → Option (List Token × List Token)
  | first :: second :: rest =>
    if first.isJoint ':' then
      (spanInvocation rest).map fun (path, after) => (first :: second :: path, after)
    else spanInvocation (first :: second :: rest)
  | _ => none

theorem spanInvocation_append {tokens path after : List Token}
    (h : spanInvocation tokens = some (path, after)) : path ++ after = tokens := by
  fun_induction spanInvocation tokens generalizing path with
  | case1 => cases h
  | case2 =>
    simp only [Option.some.injEq, Prod.mk.injEq] at h
    obtain ⟨rfl, rfl⟩ := h
    rfl
  | case3 _ _ _ _ _ _ _ ih =>
    simp only [Option.map_eq_some_iff, Prod.mk.injEq, Prod.exists] at h
    obtain ⟨p, a, hs, rfl, rfl⟩ := h
    simp [ih hs]
  | case4 => cases h
  | case5 => cases h
  | case6 => cases h

theorem spanInvocationPath_append {tokens path after : List Token}
    (h : spanInvocationPath tokens = some (path, after)) : path ++ after = tokens := by
  unfold spanInvocationPath at h
  split at h
  · split at h
    · simp only [Option.map_eq_some_iff, Prod.mk.injEq, Prod.exists] at h
      obtain ⟨p, a, hs, rfl, rfl⟩ := h
      simp [spanInvocation_append hs]
    · exact spanInvocation_append h
  · cases h

/-! ## Kinds -/

/-- The kind of a declaration without qualifiers, by its keyword. -/
def Kind.ofKeyword (t : Token) : Option Kind :=
  if t.isWord "enum" then some .enumeration
  else if t.isWord "fn" then some .function
  else if t.isWord "static" then some .static
  else if t.isWord "struct" then some .record
  else if t.isWord "trait" then some .trait
  else if t.isWord "type" then some .typeAlias
  else if t.isWord "use" then some .use
  else none

/-- Whether a token is the name of a constant: an identifier that does not make the
`const` in front of it the qualifier of a function. -/
def Token.isConstantName (t : Token) : Bool :=
  t.isIdent && !t.isOneOf ("fn".toList :: functionQualifiers)

/-- The kind of the declaration at the start of a token list, its annotations and
visibility taken off. -/
def Kind.select (tokens : List Token) : Option Kind :=
  match tokens with
  | [] => none
  | first :: rest =>
    if first.isWord "extern" && rest.head?.any (Token.isWord "crate") then some .externCrate
    else if first.isWord "const" && rest.head?.any Token.isConstantName then some .constant
    else
      match spanQualifiers (functionQualifiers ++ traitQualifiers) none tokens with
      | (_, []) => none
      | ([], keyword :: _) =>
        (Kind.ofKeyword keyword).or ((spanInvocationPath tokens).map fun _ => .invocation)
      | (qualifiers, keyword :: _) =>
        if keyword.isWord "fn" && !qualifiers.any (Token.isWord "auto") then some .function
        else if keyword.isWord "trait" && qualifiers.all (Token.isOneOf traitQualifiers) then
          some .trait
        else none

/-! ## Members -/

/-- The trivia in front of a group's closing bracket. -/
def Token.closeLeading : Token → Text
  | .atom _ _ _ => []
  | .group _ _ _ _ closeLeading => closeLeading

/-- The name of a field: the identifier behind its visibility. -/
def fieldName (tokens : List Token) : Text :=
  ((spanVisibility tokens).2.head?.bind Token.ident?).getD []

/-- The identifier behind the first occurrence of a word that has one. -/
def nameBehind (word : Text) : List Token → Option Text
  | t :: next :: rest =>
    if t.isWord word && next.isIdent then next.ident? else nameBehind word (next :: rest)
  | _ => none

/-- The name of a trait member: a function's, a type's or a constant's, and
otherwise what would be the name of a field. -/
def memberName (tokens : List Token) : Text :=
  ((nameBehind "fn" tokens).or ((nameBehind "type" tokens).or (nameBehind "const" tokens))).getD
    (fieldName tokens)

namespace Members

/-- The members that the chunks of a group are. Each chunk is read under its own
pointer, `name` and index under that of the group. -/
def ofChunks {α : Type} (g : Token) (d : Delimiter) (pointer name : Text)
    (chunks : List (List Token)) (read : Nat → Text → List Token → α) : Members α :=
  { leading := g.leading
    delimiter := d
    members := chunks.mapIdx fun index chunk => read index (Pointer.entry pointer name index) chunk
    closeLeading := g.closeLeading }

/-- The fields in a group. Fields in parentheses are named by their index. -/
def fields (s : Settings) (pointer : Text) (g : Token) (d : Delimiter) : Members Member :=
  ofChunks g d pointer "fields" (Chunk.splitFields g.children) fun index pointer chunk =>
    let (attachments, body) := Attachment.scan s pointer chunk
    let name := if d = .brace then fieldName body else Text.decimal index
    ⟨⟨.field, name, pointer, attachments⟩, body⟩

/-- The name of a variant, its tokens up to the name, and the rest. -/
def splitVariant (tokens : List Token) : Text × List Token × List Token :=
  match spanVisibility tokens with
  | (visibility, []) => ([], visibility, [])
  | (visibility, t :: rest) =>
    match t.ident? with
    | some name => (name, visibility ++ [t], rest)
    | none => ([], visibility, t :: rest)

/-- The fields of a variant, if a group of fields comes next, and the rest. -/
def variantFields (s : Settings) (pointer : Text) :
    List Token → Option (Members Member) × List Token
  | [] => (none, [])
  | t :: rest =>
    if t.isGroup .brace then (some (fields s pointer t .brace), rest)
    else if t.isGroup .paren then (some (fields s pointer t .paren), rest)
    else (none, t :: rest)

/-- The variants in a group. -/
def variants (s : Settings) (pointer : Text) (g : Token) : Members Variant :=
  ofChunks g .brace pointer "variants" (Chunk.splitFields g.children) fun _ pointer chunk =>
    let (attachments, body) := Attachment.scan s pointer chunk
    let (name, head, rest) := splitVariant body
    let (fields, tail) := variantFields s pointer rest
    ⟨⟨.variant, name, pointer, attachments⟩, head, fields, tail⟩

/-- The members of a trait. -/
def traitMembers (s : Settings) (pointer : Text) (g : Token) : Members Member :=
  ofChunks g .brace pointer "members" (Chunk.splitMembers g.children) fun _ pointer chunk =>
    let (attachments, body) := Attachment.scan s pointer chunk
    ⟨⟨.member, memberName body, pointer, attachments⟩, body⟩

end Members

/-! ## The readers -/

namespace Shape

/-- The qualifiers in front of a keyword. -/
def takeQualifiers (words : List Text) : Take (List Token) :=
  Take.part (spanQualifiers words none)

/-- The reader of constants. -/
def takeConstant : Take Shape := do
  let keyword ← Take.word "const"
  let name ← Take.ident "constant name"
  let type ← Take.upTo fun t => t.isPunct '=' || t.isPunct ';'
  let value ← Take.upToAny fun t => t.isPunct ';'
  let terminator ← Take.punct ';'
  return .constant keyword name type value terminator

/-- The reader of statics. -/
def takeStatic : Take Shape := do
  let keyword ← Take.word "static"
  let mutability ← Take.optional (Token.isWord "mut")
  let name ← Take.ident "static name"
  let type ← Take.upTo fun t => t.isPunct '=' || t.isPunct ';'
  let value ← Take.upToAny fun t => t.isPunct ';'
  let terminator ← Take.punct ';'
  return .static keyword mutability name type value terminator

/-- The reader of functions. -/
def takeFunction : Take Shape := do
  let qualifiers ← takeQualifiers functionQualifiers
  let keyword ← Take.word "fn"
  let name ← Take.ident "function name"
  let generics ← Take.generics
  let params ← Take.group .paren
  let result ← Take.upTo fun t => t.isWord "where" || t.isGroup .brace || t.isPunct ';'
  let whereClause ← Take.whereClause fun t => t.isGroup .brace || t.isPunct ';'
  let body ← Take.token (fun t => t.isGroup .brace || t.isPunct ';') "function body or `;`"
  return .function qualifiers keyword name generics params result whereClause body

/-- The reader of enumerations. -/
def takeEnumeration (s : Settings) (pointer : Text) : Take Shape := do
  let keyword ← Take.word "enum"
  let name ← Take.ident "enum name"
  let generics ← Take.generics
  let whereClause ← Take.whereClause (Token.isGroup .brace)
  let g ← Take.group .brace
  return .enumeration keyword name generics whereClause (Members.variants s pointer g)

/-- The reader of what follows the head of a structure. -/
def takeRecordBody (s : Settings) (pointer : Text) : Take RecordBody := do
  match ← Take.optional (Token.isGroup .paren) with
  | some g =>
    let whereClause ← Take.whereClause (Token.isPunct ';')
    let terminator ← Take.punct ';'
    return .tuple (Members.fields s pointer g .paren) whereClause terminator
  | none =>
    let whereClause ← Take.whereClause fun t => t.isGroup .brace || t.isPunct ';'
    match ← Take.optional (Token.isGroup .brace) with
    | some g => return .named whereClause (Members.fields s pointer g .brace)
    | none => return .unit whereClause (← Take.punct ';')

/-- The reader of structures. -/
def takeRecord (s : Settings) (pointer : Text) : Take Shape := do
  let keyword ← Take.word "struct"
  let name ← Take.ident "struct name"
  let generics ← Take.generics
  let body ← takeRecordBody s pointer
  return .record keyword name generics body

/-- The reader of traits and of trait aliases, which have no qualifiers. -/
def takeTrait (s : Settings) (pointer : Text) : Take Shape := do
  let qualifiers ← takeQualifiers traitQualifiers
  let keyword ← Take.word "trait"
  let name ← Take.ident "trait name"
  let generics ← Take.generics
  let next ← Take.peek
  if next.any (Token.isPunct '=') && qualifiers.isEmpty then
    let bounds ← Take.upTo fun t => t.isWord "where" || t.isPunct ';'
    let whereClause ← Take.whereClause (Token.isPunct ';')
    let terminator ← Take.punct ';'
    return .traitAlias keyword name generics bounds whereClause terminator
  else
    let bounds ← Take.upTo fun t => t.isWord "where" || t.isGroup .brace
    let whereClause ← Take.whereClause (Token.isGroup .brace)
    let g ← Take.group .brace
    return .trait qualifiers keyword name generics bounds whereClause
      (Members.traitMembers s pointer g)

/-- The reader of type aliases. -/
def takeTypeAlias : Take Shape := do
  let keyword ← Take.word "type"
  let name ← Take.ident "type name"
  let generics ← Take.generics
  let rest ← Take.upToAny fun t => t.isPunct ';'
  let terminator ← Take.punct ';'
  return .typeAlias keyword name generics rest terminator

/-- The imported paths, up to the semicolon. -/
def takeImportTree : Take (List Token) := do
  let first ← Take.token (fun t => !t.isPunct ';') "import path"
  let rest ← Take.upToAny fun t => t.isPunct ';'
  return first :: rest

/-- The reader of imports. -/
def takeUse : Take Shape := do
  let keyword ← Take.word "use"
  let tree ← takeImportTree
  let terminator ← Take.punct ';'
  return .use keyword tree terminator

/-- The reader of the new name of a crate. -/
def takeAlias : Take (List Token) := do
  match ← Take.optional (Token.isWord "as") with
  | none => return []
  | some keyword => return [keyword, ← Take.ident "crate alias"]

/-- The reader of crate imports. -/
def takeExternCrate : Take Shape := do
  let keyword ← Take.word "extern"
  let crate ← Take.word "crate"
  let name ← Take.ident "crate name"
  let localName ← takeAlias
  let terminator ← Take.punct ';'
  return .externCrate keyword crate name localName terminator

/-- The path of an invocation. -/
def takeInvocationPath : Take (List Token) := fun tokens =>
  match spanInvocationPath tokens with
  | some result => .ok result
  | none => .error ⟨"macro path", tokens.head?⟩

/-- The reader of invocations. Only arguments in braces need no semicolon. -/
def takeInvocation : Take Shape := do
  let path ← takeInvocationPath
  let bang ← Take.punct '!'
  let name ← Take.optional Token.isIdent
  let body ← Take.token (fun t => t.isGroup .paren || t.isGroup .bracket || t.isGroup .brace)
    "macro arguments"
  if body.isGroup .brace then
    let terminator ← Take.optional (Token.isPunct ';')
    return .invocation path bang name body terminator
  else
    let terminator ← Take.punct ';'
    return .invocation path bang name body (some terminator)

/-- The reader of a kind. -/
def take (s : Settings) (pointer : Text) : Kind → Take Shape
  | .constant => takeConstant
  | .static => takeStatic
  | .function => takeFunction
  | .enumeration => takeEnumeration s pointer
  | .record => takeRecord s pointer
  | .trait => takeTrait s pointer
  | .traitAlias => takeTrait s pointer
  | .typeAlias => takeTypeAlias
  | .use => takeUse
  | .externCrate => takeExternCrate
  | .invocation => takeInvocation

/-! ## Progress -/

open Take

private theorem consumes_word (w : Text) : Consumes (word w) := consumes_token _ _

private theorem shrinks_token (p : Token → Bool) (expected : Text) :
    Shrinks (token p expected) := (consumes_token p expected).shrinks

private theorem shrinks_qualifiers (words : List Text) : Shrinks (takeQualifiers words) :=
  shrinks_part (spanQualifiers_append words none)

private theorem shrinks_recordBody (s : Settings) (pointer : Text) :
    Shrinks (takeRecordBody s pointer) := by
  refine (shrinks_optional _).bind fun g => ?_
  cases g with
  | some g =>
    exact (shrinks_whereClause _).bind fun _ => (shrinks_token _ _).bind fun _ => shrinks_pure _
  | none =>
    refine (shrinks_whereClause _).bind fun _ => (shrinks_optional _).bind fun g => ?_
    cases g with
    | some g => exact shrinks_pure _
    | none => exact (shrinks_token _ _).bind fun _ => shrinks_pure _

private theorem shrinks_alias : Shrinks takeAlias := by
  refine (shrinks_optional _).bind fun keyword => ?_
  cases keyword with
  | none => exact shrinks_pure _
  | some keyword => exact (shrinks_token _ _).bind fun _ => shrinks_pure _

private theorem shrinks_invocationPath : Shrinks takeInvocationPath := by
  intro tokens a rest h
  simp only [takeInvocationPath] at h
  split at h
  · rename_i result hp
    simp only [Except.ok.injEq] at h
    subst h
    have := congrArg List.length (spanInvocationPath_append hp)
    rw [List.length_append] at this
    omega
  · cases h

private theorem consumes_constant : Consumes takeConstant :=
  (consumes_word _).bind fun _ => (shrinks_token _ _).bind fun _ => (shrinks_upTo _).bind fun _ =>
    (shrinks_upToAny _).bind fun _ => (shrinks_token _ _).bind fun _ => shrinks_pure _

private theorem consumes_static : Consumes takeStatic :=
  (consumes_word _).bind fun _ => (shrinks_optional _).bind fun _ =>
    (shrinks_token _ _).bind fun _ => (shrinks_upTo _).bind fun _ =>
      (shrinks_upToAny _).bind fun _ => (shrinks_token _ _).bind fun _ => shrinks_pure _

private theorem consumes_function : Consumes takeFunction :=
  (shrinks_qualifiers _).bind_consumes fun _ => (consumes_word _).bind fun _ =>
    (shrinks_token _ _).bind fun _ => shrinks_generics.bind fun _ =>
      (shrinks_token _ _).bind fun _ => (shrinks_upTo _).bind fun _ =>
        (shrinks_whereClause _).bind fun _ => (shrinks_token _ _).bind fun _ => shrinks_pure _

private theorem consumes_enumeration (s : Settings) (pointer : Text) :
    Consumes (takeEnumeration s pointer) :=
  (consumes_word _).bind fun _ => (shrinks_token _ _).bind fun _ => shrinks_generics.bind fun _ =>
    (shrinks_whereClause _).bind fun _ => (shrinks_token _ _).bind fun _ => shrinks_pure _

private theorem consumes_record (s : Settings) (pointer : Text) :
    Consumes (takeRecord s pointer) :=
  (consumes_word _).bind fun _ => (shrinks_token _ _).bind fun _ => shrinks_generics.bind fun _ =>
    (shrinks_recordBody s pointer).bind fun _ => shrinks_pure _

private theorem consumes_trait (s : Settings) (pointer : Text) : Consumes (takeTrait s pointer) := by
  refine (shrinks_qualifiers _).bind_consumes fun _ => (consumes_word _).bind fun _ =>
    (shrinks_token _ _).bind fun _ => shrinks_generics.bind fun _ => shrinks_peek.bind fun _ => ?_
  split
  · exact (shrinks_upTo _).bind fun _ => (shrinks_whereClause _).bind fun _ =>
      (shrinks_token _ _).bind fun _ => shrinks_pure _
  · exact (shrinks_upTo _).bind fun _ => (shrinks_whereClause _).bind fun _ =>
      (shrinks_token _ _).bind fun _ => shrinks_pure _

private theorem consumes_typeAlias : Consumes takeTypeAlias :=
  (consumes_word _).bind fun _ => (shrinks_token _ _).bind fun _ => shrinks_generics.bind fun _ =>
    (shrinks_upToAny _).bind fun _ => (shrinks_token _ _).bind fun _ => shrinks_pure _

private theorem shrinks_importTree : Shrinks takeImportTree :=
  (shrinks_token _ _).bind fun _ => (shrinks_upToAny _).bind fun _ => shrinks_pure _

private theorem consumes_use : Consumes takeUse :=
  (consumes_word _).bind fun _ => shrinks_importTree.bind fun _ =>
    (shrinks_token _ _).bind fun _ => shrinks_pure _

private theorem consumes_externCrate : Consumes takeExternCrate :=
  (consumes_word _).bind fun _ => (shrinks_token _ _).bind fun _ => (shrinks_token _ _).bind fun _ =>
    shrinks_alias.bind fun _ => (shrinks_token _ _).bind fun _ => shrinks_pure _

private theorem consumes_invocation : Consumes takeInvocation := by
  refine shrinks_invocationPath.bind_consumes fun _ => (consumes_token _ _).bind fun _ =>
    (shrinks_optional _).bind fun _ => (shrinks_token _ _).bind fun _ => ?_
  split
  · exact (shrinks_optional _).bind fun _ => shrinks_pure _
  · exact (shrinks_token _ _).bind fun _ => shrinks_pure _

/-- A declaration takes at least one token. -/
theorem take_consumes (s : Settings) (pointer : Text) (kind : Kind) :
    Consumes (take s pointer kind) := by
  cases kind with
  | constant => exact consumes_constant
  | static => exact consumes_static
  | function => exact consumes_function
  | enumeration => exact consumes_enumeration s pointer
  | record => exact consumes_record s pointer
  | trait => exact consumes_trait s pointer
  | traitAlias => exact consumes_trait s pointer
  | typeAlias => exact consumes_typeAlias
  | use => exact consumes_use
  | externCrate => exact consumes_externCrate
  | invocation => exact consumes_invocation

end Shape

end CondAttrs
