import CondAttrs.Proofs.Reading.Cell

/-!
# Declarations read in step

The readers of declarations, run on both sides of a list of cells. `Take.Paired` says
that two readers fail both, or take the same cells; what they return is related by a
condition on the cells taken so far, so that a reader composed of others is followed cell
by cell. For the reader of a whole declaration the condition is `Shape.Twin`: the two
shapes are divided in the same way, and where one has members, so has the other, read in
the same way from the two groups of one cell.

## Main definitions

* `Take.Paired`: two readers go in step.
* `Roster`, `Reading`: the members of a shape, and how they are read from a group.
* `Shape.before`, `Shape.roster`, `Shape.after`: the parts of a shape around its members.
* `Shape.Likens`, `Shape.Twin`: two shapes are read off the same cells.

## Main statements

* `Take.Paired.bind`: composition.
* `Shape.paired_take`: the readers of all kinds go in step.
* `Kind.select_cells`: both sides have the same kind.
-/

namespace CondAttrs

namespace Take

/-! ## Readers in step -/

/-- On cells that are sound the two readers fail both, or they take the same cells. The
cells `start` have been taken before. -/
def Paired {α : Type} (start : List Cell) (r r' : Take α)
    (result : List Cell → α → α → Prop) : Prop :=
  ∀ cells : List Cell, (∀ c ∈ cells, c.Sound) →
    (∃ own rest a a', cells = own ++ rest ∧ r (Cell.olds cells) = .ok (a, Cell.olds rest) ∧
      r' (Cell.news cells) = .ok (a', Cell.news rest) ∧ result (start ++ own) a a') ∨
    ∃ e e', r (Cell.olds cells) = .error e ∧ r' (Cell.news cells) = .error e'

theorem bind_ok {α β : Type} {r : Take α} {f : α → Take β} {tokens middle : List Token} {a : α}
    (h : r tokens = .ok (a, middle)) : (r >>= f) tokens = f a middle := by
  simp [bind, StateT.bind, Except.bind, h]

theorem bind_error {α β : Type} {r : Take α} {f : α → Take β} {tokens : List Token} {e : Missing}
    (h : r tokens = .error e) : (r >>= f) tokens = .error e := by
  simp [bind, StateT.bind, Except.bind, h]

/-- Readers that go in step are composed. -/
theorem Paired.bind {α β : Type} {start : List Cell} {r r' : Take α} {f f' : α → Take β}
    {middle : List Cell → α → α → Prop} {result : List Cell → β → β → Prop}
    (hr : Paired start r r' middle)
    (hf : ∀ own a a', middle own a a' → Paired own (f a) (f' a') result) :
    Paired start (r >>= f) (r' >>= f') result := by
  intro cells hs
  rcases hr cells hs with ⟨own, rest, a, a', rfl, h, h', hm⟩ | ⟨e, e', h, h'⟩
  · have hrest : ∀ c ∈ rest, c.Sound := fun c hc => hs c (by simp [hc])
    rw [bind_ok h, bind_ok h']
    rcases hf _ a a' hm rest hrest with ⟨own', rest', b, b', rfl, k, k', hq⟩ | ⟨e, e', k, k'⟩
    · refine .inl ⟨own ++ own', rest', b, b', by simp, k, k', ?_⟩
      rwa [List.append_assoc] at hq
    · exact .inr ⟨e, e', k, k'⟩
  · exact .inr ⟨e, e', bind_error h, bind_error h'⟩

theorem Paired.pure {α : Type} {start : List Cell} {a a' : α}
    {result : List Cell → α → α → Prop} (h : result start a a') :
    Paired start (Pure.pure a : Take α) (Pure.pure a') result := by
  intro cells _
  refine .inl ⟨[], cells, a, a', rfl, rfl, rfl, ?_⟩
  rwa [List.append_nil]

/-- A reader takes a token by the same test on both sides. -/
theorem paired_token {p : Token → Bool} (hp : Token.Selects p) (expected : Text)
    (start : List Cell) :
    Paired start (token p expected) (token p expected) fun own t t' =>
      own = start ++ [.same t t'] ∧ t.face = t'.face ∧ p t = true := by
  intro cells hs
  cases cells with
  | nil => exact .inr ⟨_, _, rfl, rfl⟩
  | cons c cells =>
    obtain ⟨hc, -⟩ := List.forall_mem_cons.1 hs
    cases c with
    | same t t' =>
      have hf : t.face = t'.face := hc
      by_cases ht : p t = true
      · have ht' : p t' = true := by rw [← hp.face hf]; exact ht
        refine .inl ⟨[.same t t'], cells, t, t', rfl, ?_, ?_, rfl, hf, ht⟩
        · simp [Cell.old, token, ht]
        · simp [Cell.new, token, ht']
      · have ht' : ¬ p t' = true := by rw [← hp.face hf]; exact ht
        refine .inr ⟨⟨expected, some t⟩, ⟨expected, some t'⟩, ?_, ?_⟩
        · simp [Cell.old, token, ht]
        · simp [Cell.new, token, ht']
    | swap f f' =>
      obtain ⟨hash, more, b, ht, hh, -⟩ := hc.1.tokens_eq
      obtain ⟨hash', more', b', ht', hh', -⟩ := hc.2.tokens_eq
      refine .inr ⟨⟨expected, some hash⟩, ⟨expected, some hash'⟩, ?_, ?_⟩
      · simp [Cell.old, ht, token, hp.hash hh]
      · simp [Cell.new, ht', token, hp.hash hh']

theorem paired_optional {p : Token → Bool} (hp : Token.Selects p) (start : List Cell) :
    Paired start (optional p) (optional p) fun own o o' =>
      (own = start ∧ o = none ∧ o' = none) ∨
        ∃ t t', own = start ++ [.same t t'] ∧ t.face = t'.face ∧ p t = true ∧ o = some t ∧
          o' = some t' := by
  intro cells hs
  refine .inl ?_
  cases cells with
  | nil => exact ⟨[], [], none, none, rfl, rfl, rfl, .inl ⟨by simp, rfl, rfl⟩⟩
  | cons c cells =>
    obtain ⟨hc, -⟩ := List.forall_mem_cons.1 hs
    cases c with
    | same t t' =>
      have hf : t.face = t'.face := hc
      by_cases ht : p t = true
      · have ht' : p t' = true := by rw [← hp.face hf]; exact ht
        refine ⟨[.same t t'], cells, some t, some t', rfl, ?_, ?_,
          .inr ⟨t, t', rfl, hf, ht, rfl, rfl⟩⟩
        · simp [Cell.old, optional, ht]
        · simp [Cell.new, optional, ht']
      · have ht' : ¬ p t' = true := by rw [← hp.face hf]; exact ht
        refine ⟨[], .same t t' :: cells, none, none, rfl, ?_, ?_, .inl ⟨by simp, rfl, rfl⟩⟩
        · simp [Cell.old, optional, ht]
        · simp [Cell.new, optional, ht']
    | swap f f' =>
      obtain ⟨hash, more, b, ht, hh, -⟩ := hc.1.tokens_eq
      obtain ⟨hash', more', b', ht', hh', -⟩ := hc.2.tokens_eq
      refine ⟨[], .swap f f' :: cells, none, none, rfl, ?_, ?_, .inl ⟨by simp, rfl, rfl⟩⟩
      · simp [Cell.old, ht, optional, hp.hash hh]
      · simp [Cell.new, ht', optional, hp.hash hh']

/-- The condition on readers that return the tokens they take. -/
def Taken (start own : List Cell) (ts ts' : List Token) : Prop :=
  ∃ cells, own = start ++ cells ∧ ts = Cell.olds cells ∧ ts' = Cell.news cells

theorem paired_part {span span' : List Token → List Token × List Token}
    (h : ∀ cells : List Cell, (∀ c ∈ cells, c.Sound) →
      Cuts cells (span (Cell.olds cells)) (span' (Cell.news cells))) (start : List Cell) :
    Paired start (part span) (part span') (Taken start) := by
  intro cells hs
  obtain ⟨own, rest, hcells, hold, hnew⟩ := h cells hs
  refine .inl ⟨own, rest, Cell.olds own, Cell.news own, hcells, ?_, ?_, own, rfl, rfl, rfl⟩
  · rw [part, hold]
  · rw [part, hnew]

theorem paired_upTo {stop : Token → Bool} (hstop : Token.Halts stop) (start : List Cell) :
    Paired start (upTo stop) (upTo stop) (Taken start) :=
  paired_part (fun _ hs => Angle.spanUntil_cuts hstop hs (fun _ => rfl) 0) start

theorem paired_upToAny {stop : Token → Bool} (hstop : Token.Halts stop) (start : List Cell) :
    Paired start (upToAny stop) (upToAny stop) (Taken start) :=
  paired_part (fun _ hs => takeWhile_cuts hstop hs) start

theorem paired_whereClause {stop : Token → Bool} (hstop : Token.Halts stop) (start : List Cell) :
    Paired start (whereClause stop) (whereClause stop) (Taken start) := by
  refine (paired_optional (Token.halts_isWord "where").selects start).bind ?_
  rintro own o o' (⟨rfl, rfl, rfl⟩ | ⟨t, t', rfl, -, -, rfl, rfl⟩)
  · exact .pure ⟨[], by simp, rfl, rfl⟩
  · refine (paired_upTo hstop _).bind ?_
    rintro own ts ts' ⟨cells, rfl, rfl, rfl⟩
    exact .pure ⟨.same t t' :: cells, by simp, rfl, rfl⟩

theorem paired_of_option {span : List Token → Option (List Token × List Token)}
    {missing : List Token → Missing} {r : Take (List Token)}
    (hr : ∀ tokens, r tokens = match span tokens with
      | some result => .ok result
      | none => .error (missing tokens))
    (h : ∀ cells : List Cell, (∀ c ∈ cells, c.Sound) →
      CutsOption cells (span (Cell.olds cells)) (span (Cell.news cells))) (start : List Cell) :
    Paired start r r (Taken start) := by
  intro cells hs
  rcases h cells hs with ⟨ho, hn⟩ | ⟨s, s', ho, hn, own, rest, hcells, rfl, rfl⟩
  · refine .inr ⟨missing (Cell.olds cells), missing (Cell.news cells), ?_, ?_⟩
    · rw [hr, ho]
    · rw [hr, hn]
  · refine .inl ⟨own, rest, Cell.olds own, Cell.news own, hcells, ?_, ?_, own, rfl, rfl, rfl⟩
    · rw [hr, ho]
    · rw [hr, hn]

theorem paired_generics (start : List Cell) : Paired start generics generics (Taken start) :=
  paired_of_option (fun _ => rfl) (fun _ hs => Angle.spanGenerics_cuts hs) start

theorem paired_peek (start : List Cell) :
    Paired start peek peek fun own o o' =>
      own = start ∧ ∀ {p : Token → Bool}, Token.Selects p → o.any p = o'.any p := by
  intro cells hs
  exact .inl ⟨[], cells, _, _, rfl, rfl, rfl, by simp, fun hp => Cell.head_any hp hs⟩

end Take

/-! ## The parts of a shape -/

/-- The members of a declaration. -/
inductive Roster where
  /-- Fields of a structure, or members of a trait. -/
  | plain (members : Members Member)
  /-- Variants of an enumeration. -/
  | variants (members : Members Variant)

/-- The ways to read the members of a declaration from a group. -/
inductive Reading where
  /-- Fields between the given brackets. -/
  | fields (delimiter : Delimiter)
  /-- Variants of an enumeration. -/
  | variants
  /-- Members of a trait. -/
  | traitMembers

namespace Reading

/-- The brackets around the members. -/
def delimiter : Reading → Delimiter
  | fields d => d
  | variants => .brace
  | traitMembers => .brace

/-- The members in a group. -/
def read (s : Settings) (pointer : Text) (g : Token) : Reading → Roster
  | fields d => .plain (Members.fields s pointer g d)
  | variants => .variants (Members.variants s pointer g)
  | traitMembers => .plain (Members.traitMembers s pointer g)

end Reading

namespace Shape

/-- The tokens in front of the members; all tokens if there are none. -/
def before : Shape → List Token
  | constant keyword name type value terminator =>
    [keyword, name] ++ type ++ value ++ [terminator]
  | static keyword mutability name type value terminator =>
    keyword :: mutability.toList ++ [name] ++ type ++ value ++ [terminator]
  | function qualifiers keyword name generics params result whereClause body =>
    qualifiers ++ [keyword, name] ++ generics ++ [params] ++ result ++ whereClause ++ [body]
  | enumeration keyword name generics whereClause _ => [keyword, name] ++ generics ++ whereClause
  | record keyword name generics (.tuple _ _ _) => [keyword, name] ++ generics
  | record keyword name generics (.named whereClause _) =>
    [keyword, name] ++ generics ++ whereClause
  | record keyword name generics (.unit whereClause terminator) =>
    [keyword, name] ++ generics ++ whereClause ++ [terminator]
  | trait qualifiers keyword name generics bounds whereClause _ =>
    qualifiers ++ [keyword, name] ++ generics ++ bounds ++ whereClause
  | traitAlias keyword name generics bounds whereClause terminator =>
    [keyword, name] ++ generics ++ bounds ++ whereClause ++ [terminator]
  | typeAlias keyword name generics rest terminator =>
    [keyword, name] ++ generics ++ rest ++ [terminator]
  | use keyword tree terminator => keyword :: tree ++ [terminator]
  | externCrate keyword crate name localName terminator =>
    [keyword, crate, name] ++ localName ++ [terminator]
  | invocation path bang name body terminator =>
    path ++ [bang] ++ name.toList ++ [body] ++ terminator.toList

/-- The members. -/
def roster : Shape → Option Roster
  | enumeration _ _ _ _ variants => some (.variants variants)
  | record _ _ _ (.tuple fields _ _) => some (.plain fields)
  | record _ _ _ (.named _ fields) => some (.plain fields)
  | trait _ _ _ _ _ _ members => some (.plain members)
  | _ => none

/-- The tokens behind the members. -/
def after : Shape → List Token
  | record _ _ _ (.tuple _ whereClause terminator) => whereClause ++ [terminator]
  | _ => []

theorem after_of_roster {shape : Shape} (h : shape.roster = none) : shape.after = [] := by
  cases shape with
  | record keyword name generics body =>
    cases body with
    | tuple => cases h
    | named => cases h
    | unit => rfl
  | _ => rfl

/-- The tokens that name a shape. -/
def title : Shape → List Token
  | constant _ name _ _ _ => [name]
  | static _ _ name _ _ _ => [name]
  | function _ _ name _ _ _ _ _ => [name]
  | enumeration _ name _ _ _ => [name]
  | record _ name _ _ => [name]
  | trait _ _ name _ _ _ _ => [name]
  | traitAlias _ name _ _ _ _ => [name]
  | typeAlias _ name _ _ _ => [name]
  | use _ _ _ => []
  | externCrate _ _ name _ _ => [name]
  | invocation path _ _ _ _ => path

/-- Two shapes have the same kind, and what stands in front of their members are the two
sides of some cells. The names are among these. -/
structure Likens (front : List Cell) (shape shape' : Shape) : Prop where
  kind : shape'.kind = shape.kind
  before : shape.before = Cell.olds front
  before' : shape'.before = Cell.news front
  title : ∃ named : List Cell, (∀ c ∈ named, c ∈ front) ∧ shape.title = Cell.olds named ∧
    shape'.title = Cell.news named

/-- Two shapes are read off the same cells, the first from their first side and the
second from their second side. -/
inductive Twin (s : Settings) (pointer pointer' : Text) : List Cell → Shape → Shape → Prop
  /-- Both are without members. -/
  | solid {own : List Cell} {shape shape' : Shape} (hlikens : Likens own shape shape')
      (hshape : shape.roster = none) (hshape' : shape'.roster = none) :
      Twin s pointer pointer' own shape shape'
  /-- Both have members, read in the same way from the two groups of a cell. -/
  | listed {before after : List Cell} {g g' : Token} {shape shape' : Shape} (reading : Reading)
      (hlikens : Likens before shape shape') (hgroup : g.isGroup reading.delimiter = true)
      (hshape : shape.roster = some (reading.read s pointer g))
      (hshape' : shape'.roster = some (reading.read s pointer' g'))
      (hafter : shape.after = Cell.olds after) (hafter' : shape'.after = Cell.news after) :
      Twin s pointer pointer' (before ++ .same g g' :: after) shape shape'

/-! ## The readers of shapes -/

section Readers

open Take

variable (s : Settings) (pointer pointer' : Text)

theorem paired_word (w : Text) (start : List Cell) :
    Paired start (word w) (word w) fun own t t' =>
      own = start ++ [.same t t'] ∧ t.face = t'.face ∧ t.isWord w = true :=
  paired_token (Token.halts_isWord w).selects _ start

theorem paired_ident (expected : Text) (start : List Cell) :
    Paired start (ident expected) (ident expected) fun own t t' =>
      own = start ++ [.same t t'] ∧ t.face = t'.face ∧ t.isIdent = true :=
  paired_token Token.halts_isIdent.selects _ start

theorem halts_semicolon : Token.Halts (Token.isPunct ';') :=
  Token.halts_isPunct (by decide)

theorem halts_brace : Token.Halts (Token.isGroup .brace) :=
  Token.halts_isGroup (by decide)

theorem halts_value : Token.Halts fun t => t.isPunct '=' || t.isPunct ';' :=
  (Token.halts_isPunct (by decide)).or halts_semicolon

theorem paired_semicolon (start : List Cell) :
    Paired start (punct ';') (punct ';') fun own t t' =>
      own = start ++ [.same t t'] ∧ t.face = t'.face ∧ t.isPunct ';' = true :=
  paired_token halts_semicolon.selects _ start

theorem paired_qualifiers (words : List Text) (start : List Cell) :
    Paired start (takeQualifiers words) (takeQualifiers words) (Taken start) :=
  paired_part (fun _ hs => spanQualifiers_cuts words hs rfl) start

theorem paired_constant : Paired [] takeConstant takeConstant (Twin s pointer pointer') := by
  refine (paired_word _ _).bind ?_
  rintro _ keyword keyword' ⟨rfl, -, -⟩
  refine (paired_ident _ _).bind ?_
  rintro _ name name' ⟨rfl, -, -⟩
  refine (paired_upTo halts_value _).bind ?_
  rintro _ _ _ ⟨type, rfl, rfl, rfl⟩
  refine (paired_upToAny halts_semicolon _).bind ?_
  rintro _ _ _ ⟨value, rfl, rfl, rfl⟩
  refine (paired_semicolon _).bind ?_
  rintro _ terminator terminator' ⟨rfl, -, -⟩
  exact .pure (.solid ⟨rfl, by simp [before, Cell.old], by simp [before, Cell.new],
    [.same name name'], by simp, rfl, rfl⟩ rfl rfl)

theorem paired_static : Paired [] takeStatic takeStatic (Twin s pointer pointer') := by
  refine (paired_word _ _).bind ?_
  rintro _ keyword keyword' ⟨rfl, -, -⟩
  refine (paired_optional (Token.halts_isWord _).selects _).bind ?_
  intro own mutability mutability' hmut
  obtain ⟨cells, hown, hold, hnew⟩ : ∃ cells, own = [.same keyword keyword'] ++ cells ∧
      mutability.toList = Cell.olds cells ∧ mutability'.toList = Cell.news cells := by
    rcases hmut with ⟨rfl, rfl, rfl⟩ | ⟨t, t', rfl, -, -, rfl, rfl⟩
    · exact ⟨[], by simp, rfl, rfl⟩
    · exact ⟨[.same t t'], by simp, rfl, rfl⟩
  subst hown
  refine (paired_ident _ _).bind ?_
  rintro _ name name' ⟨rfl, -, -⟩
  refine (paired_upTo halts_value _).bind ?_
  rintro _ _ _ ⟨type, rfl, rfl, rfl⟩
  refine (paired_upToAny halts_semicolon _).bind ?_
  rintro _ _ _ ⟨value, rfl, rfl, rfl⟩
  refine (paired_semicolon _).bind ?_
  rintro _ terminator terminator' ⟨rfl, -, -⟩
  exact .pure (.solid ⟨rfl, by simp [before, Cell.old, hold], by simp [before, Cell.new, hnew],
    [.same name name'], by simp, rfl, rfl⟩ rfl rfl)

theorem paired_function : Paired [] takeFunction takeFunction (Twin s pointer pointer') := by
  have hbody : Token.Halts fun t => t.isGroup .brace || t.isPunct ';' :=
    halts_brace.or halts_semicolon
  refine (paired_qualifiers _ _).bind ?_
  rintro qualifiers _ _ ⟨_, rfl, rfl, rfl⟩
  refine (paired_word _ _).bind ?_
  rintro _ keyword keyword' ⟨rfl, -, -⟩
  refine (paired_ident _ _).bind ?_
  rintro _ name name' ⟨rfl, -, -⟩
  refine (paired_generics _).bind ?_
  rintro _ _ _ ⟨generics, rfl, rfl, rfl⟩
  refine (paired_token (Token.selects_isGroup .paren) _ _).bind ?_
  rintro _ params params' ⟨rfl, -, -⟩
  refine (paired_upTo (((Token.halts_isWord _).or halts_brace).or halts_semicolon) _).bind ?_
  rintro _ _ _ ⟨result, rfl, rfl, rfl⟩
  refine (paired_whereClause hbody _).bind ?_
  rintro _ _ _ ⟨whereClause, rfl, rfl, rfl⟩
  refine (paired_token hbody.selects _ _).bind ?_
  rintro _ body body' ⟨rfl, -, -⟩
  exact .pure (.solid ⟨rfl, by simp [before, Cell.old], by simp [before, Cell.new],
    [.same name name'], by simp, rfl, rfl⟩ rfl rfl)

theorem paired_enumeration :
    Paired [] (takeEnumeration s pointer) (takeEnumeration s pointer')
      (Twin s pointer pointer') := by
  refine (paired_word _ _).bind ?_
  rintro _ keyword keyword' ⟨rfl, -, -⟩
  refine (paired_ident _ _).bind ?_
  rintro _ name name' ⟨rfl, -, -⟩
  refine (paired_generics _).bind ?_
  rintro _ _ _ ⟨generics, rfl, rfl, rfl⟩
  refine (paired_whereClause halts_brace _).bind ?_
  rintro _ _ _ ⟨whereClause, rfl, rfl, rfl⟩
  refine (paired_token (Token.selects_isGroup .brace) _ _).bind ?_
  rintro _ g g' ⟨rfl, -, hg⟩
  exact .pure (.listed .variants ⟨rfl, by simp [before, Cell.old], by simp [before, Cell.new],
    [.same name name'], by simp, rfl, rfl⟩ hg rfl rfl rfl rfl)

/-- What follows the head of a structure goes in step; the head has been taken. -/
theorem paired_recordBody {head : List Cell} {keyword keyword' name name' : Token}
    {generics generics' : List Token} (hhead : [keyword, name] ++ generics = Cell.olds head)
    (hhead' : [keyword', name'] ++ generics' = Cell.news head) (hname : .same name name' ∈ head) :
    Paired head (takeRecordBody s pointer) (takeRecordBody s pointer') fun own body body' =>
      Twin s pointer pointer' own (.record keyword name generics body)
        (.record keyword' name' generics' body') := by
  refine (paired_optional (Token.selects_isGroup .paren) _).bind ?_
  rintro _ _ _ (⟨rfl, rfl, rfl⟩ | ⟨g, g', rfl, -, hg, rfl, rfl⟩)
  · refine (paired_whereClause (halts_brace.or halts_semicolon) _).bind ?_
    rintro _ _ _ ⟨whereClause, rfl, rfl, rfl⟩
    refine (paired_optional halts_brace.selects _).bind ?_
    rintro _ _ _ (⟨rfl, rfl, rfl⟩ | ⟨g, g', rfl, -, hg, rfl, rfl⟩)
    · refine (paired_semicolon _).bind ?_
      rintro _ terminator terminator' ⟨rfl, -, -⟩
      exact .pure (.solid ⟨rfl, by simp [before, Cell.old, ← hhead],
        by simp [before, Cell.new, ← hhead'], [.same name name'], by simp [hname], rfl, rfl⟩ rfl rfl)
    · exact .pure (.listed (.fields .brace) ⟨rfl, by simp [before, ← hhead],
        by simp [before, ← hhead'], [.same name name'], by simp [hname], rfl, rfl⟩ hg rfl rfl rfl rfl)
  · refine (paired_whereClause halts_semicolon _).bind ?_
    rintro _ _ _ ⟨whereClause, rfl, rfl, rfl⟩
    refine (paired_semicolon _).bind ?_
    rintro _ terminator terminator' ⟨rfl, -, -⟩
    refine .pure ?_
    rw [List.append_assoc, List.append_assoc, List.singleton_append]
    exact .listed (.fields .paren) ⟨rfl, hhead, hhead', [.same name name'], by simp [hname], rfl, rfl⟩
      hg rfl rfl (by simp [after, Cell.old]) (by simp [after, Cell.new])

theorem paired_record :
    Paired [] (takeRecord s pointer) (takeRecord s pointer') (Twin s pointer pointer') := by
  refine (paired_word _ _).bind ?_
  rintro _ keyword keyword' ⟨rfl, -, -⟩
  refine (paired_ident _ _).bind ?_
  rintro _ name name' ⟨rfl, -, -⟩
  refine (paired_generics _).bind ?_
  rintro _ _ _ ⟨generics, rfl, rfl, rfl⟩
  have hhead : [keyword, name] ++ Cell.olds generics =
      Cell.olds ([.same keyword keyword', .same name name'] ++ generics) := by
    simp [Cell.old]
  have hhead' : [keyword', name'] ++ Cell.news generics =
      Cell.news ([.same keyword keyword', .same name name'] ++ generics) := by
    simp [Cell.new]
  refine (paired_recordBody s pointer pointer' hhead hhead' (by simp)).bind ?_
  intro own body body' hbody
  exact .pure hbody

theorem paired_trait :
    Paired [] (takeTrait s pointer) (takeTrait s pointer') (Twin s pointer pointer') := by
  refine (paired_qualifiers _ _).bind ?_
  rintro qualifiers _ _ ⟨_, rfl, rfl, rfl⟩
  refine (paired_word _ _).bind ?_
  rintro _ keyword keyword' ⟨rfl, -, -⟩
  refine (paired_ident _ _).bind ?_
  rintro _ name name' ⟨rfl, -, -⟩
  refine (paired_generics _).bind ?_
  rintro _ _ _ ⟨generics, rfl, rfl, rfl⟩
  refine (paired_peek _).bind ?_
  rintro _ next next' ⟨rfl, hnext⟩
  have hempty : (Cell.olds qualifiers).isEmpty = (Cell.news qualifiers).isEmpty := by
    cases qualifiers with
    | nil => rfl
    | cons c cells =>
      rw [Bool.eq_iff_iff, List.isEmpty_iff, List.isEmpty_iff]
      simp [c.old_ne_nil, c.new_ne_nil]
  rw [← hnext (Token.selects_isPunct (c := '=') (by decide)), ← hempty]
  split
  · rename_i halias
    obtain rfl : qualifiers = [] := by
      simp only [Bool.and_eq_true, List.isEmpty_iff] at halias
      exact Cell.olds_eq_nil_iff.1 halias.2
    refine (paired_upTo ((Token.halts_isWord _).or halts_semicolon) _).bind ?_
    rintro _ _ _ ⟨bounds, rfl, rfl, rfl⟩
    refine (paired_whereClause halts_semicolon _).bind ?_
    rintro _ _ _ ⟨whereClause, rfl, rfl, rfl⟩
    refine (paired_semicolon _).bind ?_
    rintro _ terminator terminator' ⟨rfl, -, -⟩
    exact .pure (.solid ⟨rfl, by simp [before, Cell.old], by simp [before, Cell.new],
    [.same name name'], by simp, rfl, rfl⟩ rfl rfl)
  · refine (paired_upTo ((Token.halts_isWord _).or halts_brace) _).bind ?_
    rintro _ _ _ ⟨bounds, rfl, rfl, rfl⟩
    refine (paired_whereClause halts_brace _).bind ?_
    rintro _ _ _ ⟨whereClause, rfl, rfl, rfl⟩
    refine (paired_token halts_brace.selects _ _).bind ?_
    rintro _ g g' ⟨rfl, -, hg⟩
    exact .pure (.listed .traitMembers ⟨rfl, by simp [before, Cell.old], by simp [before, Cell.new],
      [.same name name'], by simp, rfl, rfl⟩ hg rfl rfl rfl rfl)

theorem paired_typeAlias : Paired [] takeTypeAlias takeTypeAlias (Twin s pointer pointer') := by
  refine (paired_word _ _).bind ?_
  rintro _ keyword keyword' ⟨rfl, -, -⟩
  refine (paired_ident _ _).bind ?_
  rintro _ name name' ⟨rfl, -, -⟩
  refine (paired_generics _).bind ?_
  rintro _ _ _ ⟨generics, rfl, rfl, rfl⟩
  refine (paired_upToAny halts_semicolon _).bind ?_
  rintro _ _ _ ⟨rest, rfl, rfl, rfl⟩
  refine (paired_semicolon _).bind ?_
  rintro _ terminator terminator' ⟨rfl, -, -⟩
  exact .pure (.solid ⟨rfl, by simp [before, Cell.old], by simp [before, Cell.new],
    [.same name name'], by simp, rfl, rfl⟩ rfl rfl)

theorem takeImportTree_cons (t : Token) (rest : List Token) :
    takeImportTree (t :: rest) =
      if t.isPunct ';' then .error ⟨"import path", some t⟩
      else .ok ((t :: rest).takeWhile (!Token.isPunct ';' ·),
        (t :: rest).dropWhile (!Token.isPunct ';' ·)) := by
  by_cases h : t.isPunct ';' = true
  · rw [if_pos h]
    exact bind_error (by simp [token, h])
  · have htoken : token (fun t => !t.isPunct ';') "import path" (t :: rest) = .ok (t, rest) := by
      simp [token, h]
    have hrest : upToAny (Token.isPunct ';') rest =
        .ok (rest.takeWhile (!Token.isPunct ';' ·), rest.dropWhile (!Token.isPunct ';' ·)) := rfl
    rw [if_neg h, takeImportTree, bind_ok htoken, bind_ok hrest,
      List.takeWhile_cons_of_pos (by simp [h]), List.dropWhile_cons_of_pos (by simp [h])]
    rfl

/-- The imported paths may start with an attribute, which is taken as a whole. -/
theorem paired_importTree (start : List Cell) :
    Paired start takeImportTree takeImportTree (Taken start) := by
  intro cells hs
  have hcuts := takeWhile_cuts halts_semicolon hs
  obtain ⟨own, rest, hcells, hold, hnew⟩ := hcuts
  cases cells with
  | nil => exact .inr ⟨_, _, rfl, rfl⟩
  | cons c cells =>
    have hc := hs c (by simp)
    obtain ⟨t, more, t', more', ht, ht', htest⟩ : ∃ t more t' more',
        Cell.olds (c :: cells) = t :: more ∧ Cell.news (c :: cells) = t' :: more' ∧
          t.isPunct ';' = t'.isPunct ';' := by
      cases c with
      | same t t' => exact ⟨t, _, t', _, rfl, rfl, Token.isPunct_face _ hc⟩
      | swap f f' =>
        obtain ⟨hash, more, b, ht, hh, -⟩ := hc.1.tokens_eq
        obtain ⟨hash', more', b', ht', hh', -⟩ := hc.2.tokens_eq
        refine ⟨hash, more ++ [b] ++ Cell.olds cells, hash', more' ++ [b'] ++ Cell.news cells,
          by simp [Cell.old, ht], by simp [Cell.new, ht'], ?_⟩
        rw [halts_semicolon.selects.hash hh, halts_semicolon.selects.hash hh']
    rw [ht] at hold
    rw [ht'] at hnew
    rw [ht, ht', takeImportTree_cons, takeImportTree_cons, ← htest, hold, hnew]
    split
    · exact .inr ⟨_, _, rfl, rfl⟩
    · exact .inl ⟨own, rest, _, _, hcells, rfl, rfl, own, rfl, rfl, rfl⟩

theorem paired_use : Paired [] takeUse takeUse (Twin s pointer pointer') := by
  refine (paired_word _ _).bind ?_
  rintro _ keyword keyword' ⟨rfl, -, -⟩
  refine (paired_importTree _).bind ?_
  rintro _ _ _ ⟨tree, rfl, rfl, rfl⟩
  refine (paired_semicolon _).bind ?_
  rintro _ terminator terminator' ⟨rfl, -, -⟩
  exact .pure (.solid ⟨rfl, by simp [before, Cell.old], by simp [before, Cell.new],
    [], by simp, rfl, rfl⟩ rfl rfl)

theorem paired_alias (start : List Cell) : Paired start takeAlias takeAlias (Taken start) := by
  refine (paired_optional (Token.halts_isWord _).selects _).bind ?_
  rintro _ _ _ (⟨rfl, rfl, rfl⟩ | ⟨t, t', rfl, -, -, rfl, rfl⟩)
  · exact .pure ⟨[], by simp, rfl, rfl⟩
  · refine (paired_ident _ _).bind ?_
    rintro _ name name' ⟨rfl, -, -⟩
    exact .pure ⟨[.same t t', .same name name'], by simp, rfl, rfl⟩

theorem paired_externCrate :
    Paired [] takeExternCrate takeExternCrate (Twin s pointer pointer') := by
  refine (paired_word _ _).bind ?_
  rintro _ keyword keyword' ⟨rfl, -, -⟩
  refine (paired_word _ _).bind ?_
  rintro _ crate crate' ⟨rfl, -, -⟩
  refine (paired_ident _ _).bind ?_
  rintro _ name name' ⟨rfl, -, -⟩
  refine (paired_alias _).bind ?_
  rintro _ _ _ ⟨localName, rfl, rfl, rfl⟩
  refine (paired_semicolon _).bind ?_
  rintro _ terminator terminator' ⟨rfl, -, -⟩
  exact .pure (.solid ⟨rfl, by simp [before, Cell.old], by simp [before, Cell.new],
    [.same name name'], by simp, rfl, rfl⟩ rfl rfl)

theorem paired_invocationPath (start : List Cell) :
    Paired start takeInvocationPath takeInvocationPath (Taken start) :=
  paired_of_option (fun _ => rfl) (fun _ hs => spanInvocationPath_cuts hs) start

theorem paired_invocation : Paired [] takeInvocation takeInvocation (Twin s pointer pointer') := by
  have hbody : Token.Selects fun t =>
      t.isGroup .paren || t.isGroup .bracket || t.isGroup .brace :=
    ((Token.selects_isGroup _).or (Token.selects_isGroup _)).or (Token.selects_isGroup _)
  refine (paired_invocationPath _).bind ?_
  rintro path _ _ ⟨_, rfl, rfl, rfl⟩
  refine (paired_token (Token.selects_isPunct (c := '!') (by decide)) _ _).bind ?_
  rintro _ bang bang' ⟨rfl, -, -⟩
  refine (paired_optional Token.halts_isIdent.selects _).bind ?_
  intro own name name' hname
  obtain ⟨cells, hown, hold, hnew⟩ : ∃ cells, own = path ++ [.same bang bang'] ++ cells ∧
      name.toList = Cell.olds cells ∧ name'.toList = Cell.news cells := by
    rcases hname with ⟨rfl, rfl, rfl⟩ | ⟨t, t', rfl, -, -, rfl, rfl⟩
    · exact ⟨[], by simp, rfl, rfl⟩
    · exact ⟨[.same t t'], by simp, rfl, rfl⟩
  subst hown
  refine (paired_token hbody _ _).bind ?_
  rintro _ body body' ⟨rfl, hface, -⟩
  rw [← Token.isGroup_face .brace hface]
  split
  · refine (paired_optional halts_semicolon.selects _).bind ?_
    rintro _ _ _ (⟨rfl, rfl, rfl⟩ | ⟨t, t', rfl, -, -, rfl, rfl⟩)
    · exact .pure (.solid ⟨rfl, by simp [before, Cell.old, hold], by simp [before, Cell.new, hnew],
      path, by simp +contextual, rfl, rfl⟩ rfl rfl)
    · exact .pure (.solid ⟨rfl, by simp [before, Cell.old, hold], by simp [before, Cell.new, hnew],
      path, by simp +contextual, rfl, rfl⟩ rfl rfl)
  · refine (paired_semicolon _).bind ?_
    rintro _ terminator terminator' ⟨rfl, -, -⟩
    exact .pure (.solid ⟨rfl, by simp [before, Cell.old, hold], by simp [before, Cell.new, hnew],
      path, by simp +contextual, rfl, rfl⟩ rfl rfl)

/-- The readers of all kinds go in step. -/
theorem paired_take (kind : Kind) :
    Paired [] (take s pointer kind) (take s pointer' kind) (Twin s pointer pointer') := by
  cases kind with
  | constant => exact paired_constant s pointer pointer'
  | static => exact paired_static s pointer pointer'
  | function => exact paired_function s pointer pointer'
  | enumeration => exact paired_enumeration s pointer pointer'
  | record => exact paired_record s pointer pointer'
  | trait => exact paired_trait s pointer pointer'
  | traitAlias => exact paired_trait s pointer pointer'
  | typeAlias => exact paired_typeAlias s pointer pointer'
  | use => exact paired_use s pointer pointer'
  | externCrate => exact paired_externCrate s pointer pointer'
  | invocation => exact paired_invocation s pointer pointer'

end Readers

end Shape

/-! ## Kinds and items -/

/-- Among whole cells, a test that passes over attributes holds somewhere on both sides. -/
theorem Cell.any_halts {p : Token → Bool} (hp : Token.Halts p) {cells : List Cell}
    (hs : ∀ c ∈ cells, c.Sound) : (olds cells).any p = (news cells).any p := by
  induction cells with
  | nil => rfl
  | cons c cells ih =>
    obtain ⟨hc, hrest⟩ := List.forall_mem_cons.1 hs
    have hcell : c.old.any p = c.new.any p := by
      cases c with
      | same t t' => simp [old, new, hp.face hc]
      | swap f f' =>
        have hnone : ∀ {g : Form}, g.IsAttribute → g.tokens.any p = false := by
          intro g hg
          rw [List.any_eq_false]
          intro t ht
          simp [hp.mark (hg.isMark t ht)]
        rw [old, new, hnone hc.1, hnone hc.2]
    rw [olds_cons, news_cons, List.any_append, List.any_append, hcell, ih hrest]

/-- Among whole cells, a test that fails on attributes holds everywhere on both sides. -/
theorem Cell.all_halts {p : Token → Bool} (hp : Token.Halts p) {cells : List Cell}
    (hs : ∀ c ∈ cells, c.Sound) : (olds cells).all p = (news cells).all p := by
  induction cells with
  | nil => rfl
  | cons c cells ih =>
    obtain ⟨hc, hrest⟩ := List.forall_mem_cons.1 hs
    have hcell : c.old.all p = c.new.all p := by
      cases c with
      | same t t' => simp [old, new, hp.face hc]
      | swap f f' =>
        have hnone : ∀ {g : Form}, g.IsAttribute → g.tokens.all p = false := by
          intro g hg
          obtain ⟨hash, more, b, ht, hh, -⟩ := hg.tokens_eq
          rw [ht, List.all_cons, hp.selects.hash hh, Bool.false_and]
        rw [old, new, hnone hc.1, hnone hc.2]
    rw [olds_cons, news_cons, List.all_append, List.all_append, hcell, ih hrest]

theorem Kind.ofKeyword_face {t t' : Token} (h : t.face = t'.face) :
    ofKeyword t = ofKeyword t' := by
  simp only [ofKeyword, Token.isWord_face _ h]

theorem Token.selects_isConstantName : Selects isConstantName where
  face h := by simp only [isConstantName, isIdent_face h, isOneOf_face _ h]
  hash h := by simp [isConstantName, halts_isIdent.selects.hash h]

theorem CutsOption.isSome {cells : List Cell} {r r' : Option (List Token × List Token)}
    (h : CutsOption cells r r') : r.isSome = r'.isSome := by
  rcases h with ⟨rfl, rfl⟩ | ⟨s, s', rfl, rfl, -⟩ <;> rfl

/-- Whether the second token satisfies a test that no hash passes, if the first token
satisfies such a test. -/
theorem Cell.second_any {p q : Token → Bool} (hp : Token.Selects p) (hq : Token.Selects q)
    {cells : List Cell} (hs : ∀ c ∈ cells, c.Sound) :
    ((olds cells).head?.any p && (olds cells).tail.head?.any q) =
      ((news cells).head?.any p && (news cells).tail.head?.any q) := by
  cases cells with
  | nil => rfl
  | cons c cells =>
    obtain ⟨hc, hrest⟩ := List.forall_mem_cons.1 hs
    cases c with
    | same t t' =>
      have hhead := head_any hq hrest
      simp only [olds_cons, news_cons, old, new, List.singleton_append, List.head?_cons,
        Option.any_some, List.tail_cons, hp.face hc, hhead]
    | swap f f' =>
      obtain ⟨hash, more, b, ht, hh, -⟩ := hc.1.tokens_eq
      obtain ⟨hash', more', b', ht', hh', -⟩ := hc.2.tokens_eq
      simp [old, new, ht, ht', hp.hash hh, hp.hash hh']

theorem Kind.select_eq (tokens : List Token) :
    select tokens =
      if tokens.head?.any (Token.isWord "extern") && tokens.tail.head?.any (Token.isWord "crate")
      then some .externCrate
      else if tokens.head?.any (Token.isWord "const") &&
        tokens.tail.head?.any Token.isConstantName then some .constant
      else
        let split := spanQualifiers (functionQualifiers ++ traitQualifiers) none tokens
        split.2.head?.bind fun keyword =>
          if split.1.isEmpty then
            (Kind.ofKeyword keyword).or ((spanInvocationPath tokens).map fun _ => .invocation)
          else if keyword.isWord "fn" && !split.1.any (Token.isWord "auto") then some .function
          else if keyword.isWord "trait" && split.1.all (Token.isOneOf traitQualifiers) then
            some .trait
          else none := by
  cases tokens with
  | nil => rfl
  | cons first rest =>
    simp only [select, List.head?_cons, Option.any_some, List.tail_cons]
    congr 1
    congr 1
    rcases spanQualifiers (functionQualifiers ++ traitQualifiers) none (first :: rest) with
      ⟨_ | ⟨q, qualifiers⟩, _ | ⟨keyword, more⟩⟩ <;> rfl

/-- Both sides have the same kind. -/
theorem Kind.select_cells {cells : List Cell} (hs : ∀ c ∈ cells, c.Sound) :
    select (Cell.olds cells) = select (Cell.news cells) := by
  have hextern := Cell.second_any (Token.halts_isWord "extern").selects
    (Token.halts_isWord "crate").selects hs
  have hconst := Cell.second_any (Token.halts_isWord "const").selects
    Token.selects_isConstantName hs
  have hpath := (spanInvocationPath_cuts hs).isSome
  have hqualifiers : Cuts cells
      (spanQualifiers (functionQualifiers ++ traitQualifiers) none (Cell.olds cells))
      (spanQualifiers (functionQualifiers ++ traitQualifiers) none (Cell.news cells)) :=
    spanQualifiers_cuts _ hs rfl
  obtain ⟨own, rest, rfl, hold, hnew⟩ := hqualifiers
  have hown : ∀ c ∈ own, c.Sound := fun c hc => hs c (by simp [hc])
  have hempty : (Cell.olds own).isEmpty = (Cell.news own).isEmpty := by
    cases own with
    | nil => rfl
    | cons c cells =>
      rw [Bool.eq_iff_iff, List.isEmpty_iff, List.isEmpty_iff]
      simp [c.old_ne_nil, c.new_ne_nil]
  have hinvocation : ((spanInvocationPath (Cell.olds (own ++ rest))).map fun _ => Kind.invocation) =
      (spanInvocationPath (Cell.news (own ++ rest))).map fun _ => Kind.invocation := by
    revert hpath
    cases spanInvocationPath (Cell.olds (own ++ rest)) <;>
      cases spanInvocationPath (Cell.news (own ++ rest)) <;> simp
  rw [select_eq, select_eq, hextern, hconst, hold, hnew]
  congr 1
  congr 1
  simp only [hempty, Cell.any_halts (Token.halts_isWord _) hown,
    Cell.all_halts (Token.halts_isOneOf _) hown, hinvocation]
  cases rest with
  | nil => rfl
  | cons c rest =>
    have hc := hs c (by simp)
    cases c with
    | same t t' =>
      simp only [Cell.olds_cons, Cell.news_cons, Cell.old, Cell.new, List.singleton_append,
        List.head?_cons, Option.bind_some, ofKeyword_face hc, Token.isWord_face _ hc]
    | swap f f' =>
      obtain ⟨hash, more, b, ht, hh, -⟩ := hc.1.tokens_eq
      obtain ⟨hash', more', b', ht', hh', -⟩ := hc.2.tokens_eq
      have hword : ∀ {t : Token} (w : Text), t.isPunct '#' = true → t.isWord w = false :=
        fun w h => (Token.halts_isWord w).selects.hash h
      have hkeyword : ∀ {t : Token}, t.isPunct '#' = true → ofKeyword t = none := by
        intro t h
        simp only [ofKeyword, hword _ h, Bool.false_eq_true, ↓reduceIte]
      simp only [Cell.olds_cons, Cell.news_cons, Cell.old, Cell.new, ht, ht', List.cons_append,
        List.head?_cons, Option.bind_some, hkeyword hh, hkeyword hh', hword _ hh, hword _ hh']

/-- The tokens that are passed through are the same cells on both sides. -/
theorem Item.spanPassed_cuts {cells : List Cell} (hs : ∀ c ∈ cells, c.Sound) :
    Cuts cells (spanPassed (Cell.olds cells)) (spanPassed (Cell.news cells)) := by
  have hend : Token.Halts fun t => t.isPunct ';' || t.isGroup .brace :=
    Shape.halts_semicolon.or Shape.halts_brace
  induction cells with
  | nil => exact .stop []
  | cons c cells ih =>
    obtain ⟨hc, hrest⟩ := List.forall_mem_cons.1 hs
    cases c with
    | same t t' =>
      have htest := hend.face hc
      simp only [Cell.olds_cons, Cell.news_cons, Cell.old, Cell.new, List.cons_append,
        List.nil_append, spanPassed, ← htest]
      split
      · exact .pass (.same t t') (.stop cells)
      · exact .pass (.same t t') (ih hrest)
    | swap f f' =>
      have hmarks : ∀ {marks : List Token} (rest : List Token), (∀ t ∈ marks, t.isMark = true) →
          spanPassed (marks ++ rest) = (marks ++ (spanPassed rest).1, (spanPassed rest).2) := by
        intro marks rest hm
        induction marks with
        | nil => rfl
        | cons t marks ihm =>
          obtain ⟨ht, hm⟩ := List.forall_mem_cons.1 hm
          have htest := hend.mark ht
          simp only [List.cons_append, spanPassed, htest, Bool.false_eq_true, ↓reduceIte,
            ihm hm]
      simp only [Cell.olds_cons, Cell.news_cons, Cell.old, Cell.new, hmarks _ hc.1.isMark,
        hmarks _ hc.2.isMark]
      exact .pass (.swap f f') (ih hrest)

theorem Form.IsAttribute.read {f : Form} (h : f.IsAttribute) (rest : List Token) :
    Form.read (f.tokens ++ rest) = some (f, rest) := by
  cases f with
  | doc => cases h
  | bare => cases h
  | marked hash bang bracket =>
    obtain ⟨hh, hb, hk⟩ := h
    obtain ⟨_, _, _, rfl⟩ := Token.isPunct_iff.1 hh
    obtain ⟨_, _, _, _, rfl⟩ := Token.isGroup_iff.1 hk
    cases bang with
    | none => simp [tokens, Form.read, Token.isPunct, Token.isGroup]
    | some bang =>
      obtain ⟨_, _, _, rfl⟩ := Token.isPunct_iff.1 (hb bang rfl)
      simp [tokens, Form.read, Token.isPunct, Token.isGroup]

end CondAttrs
