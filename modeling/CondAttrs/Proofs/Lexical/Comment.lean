import CondAttrs.Proofs.Lexical.Shebang

/-!
# Comments

What a comment is can be said without a scanner. A line comment goes up to where its line ends.
A block comment is closed by the mark that belongs to it, after any number of comments inside it,
each of which is closed in the same way. Whether a comment is documentation is told by its first
characters: three of them open one of the four kinds of documentation, unless a fourth one takes
that back.

By these rules the trivia in front of a token is blank characters and ordinary comments, an
interpreter line excepted that opens the text, and no token starts where an ordinary comment does.

## Main definitions

* `UpToLineEnd`, `Closes`: the extent of the two kinds of comment.
* `opensDoc`, `startsComment`: documentation and ordinary comments by their first characters.
* `Trivia.Plain`, `Trivia.Between`: trivia in front of a given text.
* `WholeDoc`: a documentation comment.

## Main statements

* `closes_of_blockBody`, `Closes.blockBody_append`: counting depths finds the mark that closes a
  comment.
* `Trivia.plain_of_read`: trivia is blank characters and ordinary comments.
* `Glyph.Fits.startsComment_append`: no token starts where an ordinary comment does.
* `Glyph.Fits.wholeDoc`: a token of documentation is one whole comment.
-/

namespace CondAttrs

/-! ## The extent of comments -/

/-- The text in front of `rest` goes on just to the end of a line: it holds no line feed, a line
ends behind it, and it has taken no part of the line end. -/
def UpToLineEnd (line rest : Text) : Prop :=
  '\n' ∉ line ∧ lineEnds rest = true ∧ (line.getLast? = some '\r' → rest.head? ≠ some '\n')

theorem upToLineEnd_of_spanLine {line rest : Text} (h : spanLine (line ++ rest) = (line, rest)) :
    UpToLineEnd line rest := by
  induction line with
  | nil =>
    have hend := lineEnds_spanLine rest
    rw [List.nil_append] at h
    rw [h] at hend
    exact ⟨List.not_mem_nil, hend, by simp⟩
  | cons c line ih =>
    have hc : lineEnds (c :: (line ++ rest)) = false := by
      rw [Bool.eq_false_iff]
      intro hc
      rw [List.cons_append, spanLine_of_lineEnds hc] at h
      simp at h
    rw [List.cons_append, spanLine_cons hc] at h
    simp only [Prod.mk.injEq, List.cons.injEq, true_and] at h
    obtain ⟨hfeed, hend, hreturn⟩ := ih (Prod.ext h.1 h.2)
    simp only [lineEnds, Bool.or_eq_false_iff, decide_eq_false_iff_not] at hc
    refine ⟨?_, hend, ?_⟩
    · rw [List.mem_cons, not_or]
      exact ⟨Ne.symm hc.1, hfeed⟩
    · cases line with
      | nil =>
        intro hlast
        obtain rfl : c = '\r' := by simpa using hlast
        simpa using hc.2
      | cons d line => simpa only [List.getLast?_cons_cons] using hreturn

theorem spanLine_of_upToLineEnd {line rest : Text} (h : UpToLineEnd line rest) :
    spanLine (line ++ rest) = (line, rest) := by
  obtain ⟨hfeed, hend, hreturn⟩ := h
  induction line with
  | nil => exact spanLine_of_lineEnds hend
  | cons c line ih =>
    rw [List.mem_cons, not_or] at hfeed
    have hc : lineEnds (c :: (line ++ rest)) = false := by
      simp only [lineEnds, Bool.or_eq_false_iff, decide_eq_false_iff_not, Bool.and_eq_false_imp,
        decide_eq_true_eq]
      refine ⟨Ne.symm hfeed.1, ?_⟩
      rintro rfl hhead
      cases line with
      | nil => exact hreturn rfl hhead
      | cons d line => exact hfeed.2 (by simp [Option.some.inj hhead])
    have hreturn' : line.getLast? = some '\r' → rest.head? ≠ some '\n' := by
      cases line with
      | nil => simp
      | cons d line => simpa only [List.getLast?_cons_cons] using hreturn
    rw [List.cons_append, spanLine_cons hc, ih hfeed.2 hreturn']

/-- Whether a mark that opens or closes a block comment stands where the text starts. -/
def startsMark (t : Text) : Bool :=
  ['/', '*'].isPrefixOf t || ['*', '/'].isPrefixOf t

/-- What follows the opening mark of a block comment, up to and with the mark that closes it. A
comment inside is closed before. -/
inductive Closes : Text → Prop where
  | mark : Closes ['*', '/']
  | char {c : Char} {rest : Text} (hc : startsMark (c :: rest) = false) (hrest : Closes rest) :
      Closes (c :: rest)
  | nested {inner rest : Text} (hinner : Closes inner) (hrest : Closes rest) :
      Closes ('/' :: '*' :: (inner ++ rest))

/-- The same under a number of further open comments, which are closed one after the other. -/
inductive ClosesAll : Nat → Text → Prop where
  | last {t : Text} (h : Closes t) : ClosesAll 0 t
  | more {depth : Nat} {t rest : Text} (h : Closes t) (hrest : ClosesAll depth rest) :
      ClosesAll (depth + 1) (t ++ rest)

theorem startsMark_append {t : Text} (h : startsMark t = true) (rest : Text) :
    startsMark (t ++ rest) = true := by
  have hle := List.prefix_append t rest
  simp only [startsMark, Bool.or_eq_true, List.isPrefixOf_iff_prefix] at h ⊢
  exact h.imp (fun h => h.trans hle) (fun h => h.trans hle)

theorem ClosesAll.char {c : Char} {depth : Nat} {t : Text} (hc : startsMark (c :: t) = false)
    (h : ClosesAll depth t) : ClosesAll depth (c :: t) := by
  cases h with
  | last h => exact .last (.char hc h)
  | @more _ t rest h hrest =>
    have hct : startsMark (c :: t) = false := by
      rw [Bool.eq_false_iff] at hc ⊢
      exact fun hct => hc (startsMark_append hct rest)
    exact ClosesAll.more (.char hct h) hrest

theorem ClosesAll.nested {depth : Nat} {t : Text} (h : ClosesAll (depth + 1) t) :
    ClosesAll depth ('/' :: '*' :: t) := by
  cases h with
  | more hinner hrest =>
    cases hrest with
    | last hrest => exact .last (.nested hinner hrest)
    | more hnext hrest =>
      rw [← List.append_assoc]
      exact .more (.nested hinner hnext) hrest

/-- A block comment found by counting open comments is closed by the mark that ends it. -/
theorem closesAll_of_blockBody {depth : Nat} {t body after : Text}
    (h : blockBody depth t = some (body, after)) : ClosesAll depth (body ++ ['*', '/']) := by
  fun_induction blockBody depth t generalizing body with
  | case1 => simp at h
  | case2 depth rest ih =>
    simp only [Option.map_eq_some_iff, Prod.mk.injEq, Prod.exists] at h
    obtain ⟨b, a, hb, rfl, rfl⟩ := h
    exact (ih hb).nested
  | case3 rest =>
    simp only [Option.some.injEq, Prod.mk.injEq] at h
    obtain ⟨rfl, rfl⟩ := h
    exact .last .mark
  | case4 depth rest ih =>
    simp only [Option.map_eq_some_iff, Prod.mk.injEq, Prod.exists] at h
    obtain ⟨b, a, hb, rfl, rfl⟩ := h
    exact ClosesAll.more (t := ['*', '/']) .mark (ih hb)
  | case5 depth c rest hopen hclose hclose' ih =>
    simp only [Option.map_eq_some_iff, Prod.mk.injEq, Prod.exists] at h
    obtain ⟨b, a, hb, rfl, rfl⟩ := h
    refine (ih hb).char (Bool.eq_false_iff.2 fun hmark => ?_)
    -- a mark that starts here in the comment starts here in the text
    have hrest : c :: (b ++ ['*', '/']) ++ a = c :: rest := by simp [← blockBody_append hb]
    have hmark := hrest ▸ startsMark_append hmark a
    simp only [startsMark, Bool.or_eq_true, List.isPrefixOf_iff_prefix] at hmark
    rcases hmark with ⟨r, hr⟩ | ⟨r, hr⟩
    · obtain ⟨hc, hr⟩ := List.cons.inj hr
      exact hopen r hc.symm hr.symm
    · obtain ⟨hc, hr⟩ := List.cons.inj hr
      cases depth with
      | zero => exact hclose r rfl hc.symm hr.symm
      | succ depth => exact hclose' depth r rfl hc.symm hr.symm

theorem closes_of_blockBody {t body after : Text} (h : blockBody 0 t = some (body, after)) :
    Closes (body ++ ['*', '/']) := by
  cases closesAll_of_blockBody h with
  | last h => exact h

theorem blockBody_cons {c : Char} {t : Text} (h : startsMark (c :: t) = false) (depth : Nat) :
    blockBody depth (c :: t) =
      (blockBody depth t).map fun r => (c :: r.1, r.2) := by
  have hopen : ∀ rest, c = '/' → t = '*' :: rest → False := by
    rintro rest rfl rfl
    simp [startsMark, List.isPrefixOf] at h
  have hclose : ∀ rest, c = '*' → t = '/' :: rest → False := by
    rintro rest rfl rfl
    simp [startsMark, List.isPrefixOf] at h
  rw [blockBody]
  · exact hopen
  · exact fun rest _ => hclose rest
  · exact fun _ rest _ => hclose rest

/-- A comment that is closed is found by counting open comments, at every depth. -/
theorem Closes.blockBody_append {inner : Text} (h : Closes inner) :
    ∃ body, inner = body ++ ['*', '/'] ∧ ∀ after,
      blockBody 0 (inner ++ after) = some (body, after) ∧
      ∀ depth, blockBody (depth + 1) (inner ++ after) =
        (blockBody depth after).map fun r => (inner ++ r.1, r.2) := by
  induction h with
  | mark => exact ⟨[], rfl, fun after => ⟨rfl, fun depth => rfl⟩⟩
  | @char c rest hc hrest ih =>
    obtain ⟨body, rfl, hbody⟩ := ih
    refine ⟨c :: body, rfl, fun after => ?_⟩
    obtain ⟨hzero, hsucc⟩ := hbody after
    have hc' : startsMark (c :: (body ++ ['*', '/'] ++ after)) = false := by
      cases body <;> simpa [startsMark, List.isPrefixOf] using hc
    refine ⟨?_, fun depth => ?_⟩
    · rw [List.cons_append, blockBody_cons hc', hzero]
      rfl
    · rw [List.cons_append, blockBody_cons hc', hsucc, Option.map_map]
      rfl
  | @nested inner rest _ _ ihinner ihrest =>
    obtain ⟨_, -, hinner⟩ := ihinner
    obtain ⟨body, rfl, hrest⟩ := ihrest
    refine ⟨'/' :: '*' :: (inner ++ body), by simp, fun after => ?_⟩
    obtain ⟨hzero, hsucc⟩ := hrest after
    have hopen : ∀ depth, blockBody depth ('/' :: '*' :: (inner ++ (body ++ ['*', '/'])) ++ after) =
        (blockBody depth (body ++ ['*', '/'] ++ after)).map
          fun r => ('/' :: '*' :: (inner ++ r.1), r.2) := by
      intro depth
      simp only [List.cons_append, blockBody, List.append_assoc inner,
        (hinner (body ++ ['*', '/'] ++ after)).2 depth, Option.map_map]
      rfl
    refine ⟨?_, fun depth => ?_⟩
    · rw [hopen, hzero]
      rfl
    · rw [hopen, hsucc, Option.map_map]
      simp [Function.comp_def]

/-! ## Documentation -/

/-- Whether a documentation comment is opened where the text starts. -/
def opensDoc (t : Text) : Bool :=
  (['/', '/', '/'].isPrefixOf t && !(['/', '/', '/', '/'].isPrefixOf t)) ||
    ['/', '/', '!'].isPrefixOf t ||
    (['/', '*', '*'].isPrefixOf t && !(['/', '*', '*', '*'].isPrefixOf t) &&
      !(['/', '*', '*', '/'].isPrefixOf t)) ||
    ['/', '*', '!'].isPrefixOf t

/-- Whether an ordinary comment is opened where the text starts. -/
def startsComment (t : Text) : Bool :=
  (['/', '/'].isPrefixOf t || ['/', '*'].isPrefixOf t) && !opensDoc t

theorem startsComment_eq_true_iff {t : Text} : startsComment t = true ↔
    (['/', '/'] <+: t ∨ ['/', '*'] <+: t) ∧ opensDoc t = false := by
  simp only [startsComment, Bool.and_eq_true, Bool.or_eq_true, List.isPrefixOf_iff_prefix,
    Bool.not_eq_true']

theorem isSome_docMarker (t : Text) : (DocMarker.read t).isSome = opensDoc t := by
  have hhead : ∀ (c : Char) (rest : Text), [c].isPrefixOf rest = decide (rest.head? = some c) := by
    intro c rest
    cases rest with
    | nil => rfl
    | cons d rest =>
      rw [Bool.eq_iff_iff]
      simp only [List.isPrefixOf, Bool.and_true, beq_iff_eq, List.head?_cons, decide_eq_true_eq,
        Option.some.injEq]
      exact eq_comm
  unfold DocMarker.read
  split
  · rename_i rest
    have hfourth : opensDoc ('/' :: '/' :: '/' :: rest) = !decide (rest.head? = some '/') := by
      simp [opensDoc, List.isPrefixOf, hhead]
    rw [hfourth]
    split <;> simp_all
  · simp [opensDoc, List.isPrefixOf]
  · rename_i rest
    have hfourth : opensDoc ('/' :: '*' :: '*' :: rest) =
        !(decide (rest.head? = some '*') || decide (rest.head? = some '/')) := by
      simp [opensDoc, List.isPrefixOf, hhead]
    rw [hfourth]
    split
    · rename_i h
      rw [h]
      rfl
    · rename_i h
      rw [Bool.eq_false_iff.2 h]
      rfl
  · simp [opensDoc, List.isPrefixOf]
  · rename_i houter hinner hblock hblock'
    symm
    rw [Option.isSome_none, Bool.eq_false_iff]
    intro h
    simp only [opensDoc, Bool.or_eq_true, Bool.and_eq_true, List.isPrefixOf_iff_prefix] at h
    rcases h with ((⟨⟨r, rfl⟩, -⟩ | ⟨r, rfl⟩) | ⟨⟨⟨r, rfl⟩, -⟩, -⟩) | ⟨r, rfl⟩
    · exact houter r rfl
    · exact hinner r rfl
    · exact hblock r rfl
    · exact hblock' r rfl

theorem docMarker_eq_none_iff {t : Text} : DocMarker.read t = none ↔ opensDoc t = false := by
  rw [← isSome_docMarker, Option.isSome_eq_false_iff, Option.isNone_iff_eq_none]

/-- Four characters tell whether a comment is documentation. -/
theorem opensDoc_append {t : Text} (h : 4 ≤ t.length) (rest : Text) :
    opensDoc (t ++ rest) = opensDoc t := by
  rw [← isSome_docMarker, ← isSome_docMarker, Trivia.docMarker_take, Trivia.docMarker_take t,
    List.take_append_of_le_length h]

/-- Of a line comment those of the line tell it. -/
theorem opensDoc_line {rest : Text} (line : Text) (h : lineEnds rest = true) :
    opensDoc ('/' :: '/' :: (line ++ rest)) = opensDoc ('/' :: '/' :: line) := by
  rw [← isSome_docMarker, ← isSome_docMarker]
  exact Trivia.docMarker_lineEnds ('/' :: line) h

/-! ## Trivia -/

namespace Trivia

/-- Blank characters and ordinary comments in front of `rest`. -/
inductive Plain (rest : Text) : Text → Prop where
  | nil : Plain rest []
  | blank {c : Char} {more : Text} (hc : Text.isBlank c = true) (hmore : Plain rest more) :
      Plain rest (c :: more)
  | line {body more : Text} (hbody : UpToLineEnd body (more ++ rest))
      (hdoc : opensDoc ('/' :: '/' :: body) = false) (hmore : Plain rest more) :
      Plain rest ('/' :: '/' :: (body ++ more))
  | block {inner more : Text} (hinner : Closes inner)
      (hdoc : opensDoc ('/' :: '*' :: inner) = false) (hmore : Plain rest more) :
      Plain rest ('/' :: '*' :: (inner ++ more))

theorem Plain.cons {piece more rest : Text} (h : Made piece (more ++ rest))
    (hmore : Plain rest more) : Plain rest (piece ++ more) := by
  cases h with
  | blank hc => exact .blank hc hmore
  | @line body _ hdoc h =>
    have hbody := upToLineEnd_of_spanLine h
    rw [docMarker_eq_none_iff, opensDoc_line body hbody.2.1] at hdoc
    exact .line hbody hdoc hmore
  | @block body _ hdoc h =>
    have htext : '/' :: '*' :: (body ++ '*' :: '/' :: (more ++ rest)) =
        '/' :: '*' :: (body ++ ['*', '/']) ++ (more ++ rest) := by simp
    rw [docMarker_eq_none_iff, htext, opensDoc_append (by simp)] at hdoc
    exact .block (closes_of_blockBody h) hdoc hmore

/-- What is read as trivia is blank characters and ordinary comments. -/
theorem plain_of_read {p : Position} {t trivia rest : Text}
    (h : read p t = .ok (trivia, rest)) : Plain rest trivia := by
  fun_induction read p t generalizing trivia rest with
  | case1 p t hn =>
    simp only [Except.ok.injEq, Prod.mk.injEq] at h
    obtain ⟨rfl, rfl⟩ := h
    exact .nil
  | case2 => cases h
  | case3 => cases h
  | case4 p t text after hn more rest' hr ih =>
    simp only [Except.ok.injEq, Prod.mk.injEq] at h
    obtain ⟨rfl, rfl⟩ := h
    have hmade := made_of_next hn
    rw [← read_append hr] at hmade
    exact (ih hr).cons hmade

theorem Closed.plain {trivia rest : Text} (h : Closed trivia) (hrest : Stops rest) :
    Plain rest trivia :=
  plain_of_read (h rest hrest .start)

theorem Final.plain {trivia : Text} (h : Final trivia) : Plain [] trivia :=
  plain_of_read (h .start)

/-- The interpreter line in front of `rest`. -/
def IsShebang (line rest : Text) : Prop :=
  ['#', '!'] <+: line ∧ UpToLineEnd line rest

/-- The trivia that stands behind `before` and in front of `rest`. Only where nothing stands
before it may it start with an interpreter line. -/
def Between (before trivia rest : Text) : Prop :=
  Plain rest trivia ∨ before = [] ∧
    ∃ line more, trivia = line ++ more ∧ IsShebang line (more ++ rest) ∧ Plain rest more

theorem isShebang_of_readShebang {t line rest : Text} (h : readShebang t = .ok (line, rest)) :
    line = [] ∨ IsShebang line rest := by
  have ht := readShebang_append h
  unfold readShebang at h
  split at h
  · rename_i more
    split at h
    · cases h
    split at h
    · cases h
    · simp only [Except.ok.injEq, Prod.mk.injEq] at h
      exact .inl h.1.symm
    · simp only [Except.ok.injEq] at h
      have hline := h
      rw [spanLine_cons rfl, spanLine_cons rfl, Prod.mk.injEq] at hline
      rw [← ht] at h
      exact .inr ⟨⟨_, hline.1⟩, upToLineEnd_of_spanLine h⟩
  · simp only [Except.ok.injEq, Prod.mk.injEq] at h
    exact .inl h.1.symm

end Trivia

/-! ## Tokens -/

/-- A text in front of `rest` is one whole documentation comment, and `value` is what it says: all
behind its first three characters, in a block up to the closing mark. -/
def WholeDoc (text value rest : Text) : Prop :=
  opensDoc text = true ∧
    ((∃ body, text = '/' :: '/' :: body ∧ UpToLineEnd body rest ∧ text = text.take 3 ++ value) ∨
      ∃ inner, text = '/' :: '*' :: inner ∧ Closes inner ∧
        text = text.take 3 ++ (value ++ ['*', '/']))

theorem UpToLineEnd.cons {c : Char} {line rest : Text} (h : UpToLineEnd line rest)
    (hfeed : c ≠ '\n') (hreturn : c ≠ '\r') : UpToLineEnd (c :: line) rest := by
  obtain ⟨hline, hend, hlast⟩ := h
  refine ⟨by simp [hline, hfeed.symm], hend, ?_⟩
  cases line with
  | nil => simp [hreturn]
  | cons d line => simpa only [List.getLast?_cons_cons] using hlast

theorem opensDoc_block_star {t : Text} (h : opensDoc ('/' :: '*' :: '*' :: t) = true) :
    startsMark ('*' :: t) = false := by
  cases t with
  | nil => rfl
  | cons c t =>
    simp [opensDoc, List.isPrefixOf] at h
    simp [startsMark, List.isPrefixOf, h.2]

theorem wholeDoc_line {marker : DocMarker} {value rest : Text} (hline : marker.isLine = true)
    (hopens : opensDoc ((Atom.doc marker value).text ++ rest) = true)
    (hvalue : UpToLineEnd value rest) : WholeDoc (Atom.doc marker value).text value rest := by
  obtain ⟨c, htext, hfeed, hreturn⟩ : ∃ c, (Atom.doc marker value).text = '/' :: '/' :: c :: value ∧
      c ≠ '\n' ∧ c ≠ '\r' := by
    cases marker with
    | outerLine => exact ⟨'/', by simp [Atom.text, DocMarker.opening, DocMarker.closing], by decide⟩
    | innerLine => exact ⟨'!', by simp [Atom.text, DocMarker.opening, DocMarker.closing], by decide⟩
    | outerBlock => cases hline
    | innerBlock => cases hline
  have hbody := hvalue.cons hfeed hreturn
  rw [htext] at hopens ⊢
  refine ⟨?_, .inl ⟨c :: value, rfl, hbody, rfl⟩⟩
  rw [← opensDoc_line (c :: value) hbody.2.1]
  exact hopens

theorem wholeDoc_block {marker : DocMarker} {value rest : Text} (hline : marker.isLine = false)
    (hopens : opensDoc ((Atom.doc marker value).text ++ rest) = true)
    (hvalue : Closes (value ++ ['*', '/'])) : WholeDoc (Atom.doc marker value).text value rest := by
  obtain ⟨c, htext, hc⟩ : ∃ c, (Atom.doc marker value).text =
      '/' :: '*' :: c :: (value ++ ['*', '/']) ∧ (c = '*' ∨ c = '!') := by
    cases marker with
    | outerLine => cases hline
    | innerLine => cases hline
    | outerBlock => exact ⟨'*', rfl, .inl rfl⟩
    | innerBlock => exact ⟨'!', rfl, .inr rfl⟩
  rw [htext] at hopens ⊢
  rw [opensDoc_append (by simp)] at hopens
  have hmark : startsMark (c :: (value ++ ['*', '/'])) = false := by
    rcases hc with rfl | rfl
    · exact opensDoc_block_star hopens
    · rfl
  exact ⟨hopens, .inr ⟨_, rfl, .char hmark hvalue, rfl⟩⟩

/-- What is read as documentation is a whole comment. -/
theorem Atom.wholeDoc_of_read {c : Char} {more rest value : Text} {marker : DocMarker}
    (htext : (Atom.doc marker value).text = c :: more)
    (h : Atom.read c (more ++ rest) = .ok (.doc marker value, rest)) :
    WholeDoc (Atom.doc marker value).text value rest := by
  rcases read_kinds h with ⟨marker', after, hm, hr⟩ | ⟨text, ha, -⟩ | ⟨ha, -⟩
  · have hopens : opensDoc ((Atom.doc marker value).text ++ rest) = true := by
      rw [htext, List.cons_append, ← isSome_docMarker, hm, Option.isSome_some]
    unfold readDoc at hr
    split at hr
    · rename_i hline
      simp only [Except.ok.injEq, Prod.mk.injEq, Atom.doc.injEq] at hr
      obtain ⟨⟨rfl, rfl⟩, rfl⟩ := hr
      refine wholeDoc_line hline hopens (upToLineEnd_of_spanLine ?_)
      rw [spanLine_append]
    · rename_i hline
      split at hr
      · cases hr
      · rename_i hb
        simp only [Except.ok.injEq, Prod.mk.injEq, Atom.doc.injEq] at hr
        obtain ⟨⟨rfl, rfl⟩, rfl⟩ := hr
        exact wholeDoc_block (Bool.eq_false_iff.2 hline) hopens (closes_of_blockBody hb)
  · simp at ha
  · cases ha

theorem Atom.exists_doc_of_opensDoc {c : Char} {t rest : Text} {a : Atom}
    (h : Atom.read c t = .ok (a, rest)) (hopens : opensDoc (c :: t) = true) :
    ∃ marker value, a = .doc marker value := by
  rw [← isSome_docMarker, Option.isSome_iff_exists] at hopens
  obtain ⟨⟨marker, after⟩, hm⟩ := hopens
  simp only [Atom.read, hm, readDoc] at h
  split at h
  · cases h
    exact ⟨marker, _, rfl⟩
  · split at h
    · cases h
    · cases h
      exact ⟨marker, _, rfl⟩

namespace Glyph

variable {g : Glyph} {rest : Text}

theorem Fits.isBlank_head (h : g.Fits rest) : g.text.head?.any Text.isBlank = false := by
  obtain ⟨c, more, htext, hstops, -⟩ := h
  simp [htext, hstops.head_not_blank]

/-- Where a token starts no ordinary comment does. -/
theorem Fits.startsComment_append (h : g.Fits rest) : startsComment (g.text ++ rest) = false := by
  obtain ⟨c, more, htext, hstops, -⟩ := h
  rw [htext, List.cons_append, Bool.eq_false_iff]
  intro hstart
  obtain ⟨hmark, hdoc⟩ := startsComment_eq_true_iff.1 hstart
  rcases hmark with ⟨r, hr⟩ | ⟨r, hr⟩
  · obtain ⟨rfl, hnext⟩ := List.cons.inj hr
    have hline := ((Trivia.stops_slash_iff (docMarker_eq_none_iff.2 hdoc)).1 hstops).1
    exact hline (by rw [← hnext]; rfl)
  · obtain ⟨rfl, hnext⟩ := List.cons.inj hr
    have hblock := ((Trivia.stops_slash_iff (docMarker_eq_none_iff.2 hdoc)).1 hstops).2
    exact hblock (by rw [← hnext]; rfl)

/-- A token of documentation is a whole comment. -/
theorem Fits.wholeDoc {marker : DocMarker} {value : Text}
    (h : (atom (.doc marker value)).Fits rest) :
    WholeDoc (Atom.doc marker value).text value rest := by
  obtain ⟨c, more, htext, -, -, -, hread⟩ := fits_atom_iff.1 h
  exact Atom.wholeDoc_of_read htext hread

/-- By itself no token starts with an ordinary comment either: one that starts with the mark of a
comment is documentation. -/
theorem Fits.startsComment_text (h : g.Fits rest) : startsComment g.text = false := by
  cases g with
  | opening d => cases d <;> rfl
  | closing d => cases d <;> rfl
  | atom a =>
    rw [Bool.eq_false_iff]
    intro hstart
    obtain ⟨hmark, hdoc⟩ := startsComment_eq_true_iff.1 hstart
    have hle := List.prefix_append (atom a).text rest
    have hopens : opensDoc ((atom a).text ++ rest) = true := by
      cases hopens : opensDoc ((atom a).text ++ rest) with
      | true => rfl
      | false =>
        have hcomment := startsComment_eq_true_iff.2
          ⟨hmark.imp (fun h => h.trans hle) (fun h => h.trans hle), hopens⟩
        rw [h.startsComment_append] at hcomment
        cases hcomment
    obtain ⟨c, more, htext, -, -, -, hread⟩ := fits_atom_iff.1 h
    rw [text, htext, List.cons_append] at hopens
    obtain ⟨marker, value, rfl⟩ := Atom.exists_doc_of_opensDoc hread hopens
    rw [text, h.wholeDoc.1] at hdoc
    cases hdoc

end Glyph

end CondAttrs
