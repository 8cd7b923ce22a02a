import CondAttrs.Declaration.Item

/-!
# Reading two token lists in step

Two token lists are compared that agree up to replaced attributes. They are laid out
side by side as a list of *cells*: a cell holds either two tokens that look the same
from outside, or two attributes, one for each side, of which nothing is asked but that
they are attributes.

The readers of declarations look at tokens from outside only, and none of them starts
or ends inside an attribute. So they go through both sides in step: either they fail on
both, or they take the same cells. This is shown here for the spans of which the readers
are made.

## Main definitions

* `Token.face`: what a reader sees that does not look inside groups.
* `Token.Selects`, `Token.Halts`: the tests that readers use to take a token, and to stop.
* `Cell`, `Cell.olds`, `Cell.news`: two lists side by side.
* `Cuts`, `CutsOption`: two divisions are made at the same place.

## Main statements

* `Angle.spanUntil_cuts`, `spanQualifiers_cuts`, `spanInvocationPath_cuts`: the spans of
  both sides are made of the same cells.
-/

namespace CondAttrs

/-! ## Faces -/

/-- What a reader sees of a token without looking inside a group. -/
inductive Face where
  /-- A single token. -/
  | atom (atom : Atom)
  /-- A group between the given brackets. -/
  | group (delimiter : Delimiter)
deriving DecidableEq

namespace Token

/-- What a token looks like from outside. -/
def face : Token → Face
  | .atom _ _ a => .atom a
  | .group _ _ d _ _ => .group d

/-- A function of tokens that ignores trivia, positions and what is inside a group. -/
theorem congr_face {α : Type} {f : Token → α}
    (hatom : ∀ l p l' p' a, f (.atom l p a) = f (.atom l' p' a))
    (hgroup : ∀ l p c e l' p' c' e' d, f (.group l p d c e) = f (.group l' p' d c' e'))
    {t t' : Token} (h : t.face = t'.face) : f t = f t' := by
  cases t with
  | atom l p a =>
    cases t' with
    | atom l' p' a' => cases h; exact hatom l p l' p' a
    | group => cases h
  | group l p d c e =>
    cases t' with
    | atom => cases h
    | group l' p' d' c' e' => cases h; exact hgroup l p c e l' p' c' e' d

theorem ident?_face {t t' : Token} (h : t.face = t'.face) : t.ident? = t'.ident? :=
  congr_face (fun _ _ _ _ a => by cases a <;> rfl) (fun _ _ _ _ _ _ _ _ _ => rfl) h

theorem isWord_face {t t' : Token} (w : Text) (h : t.face = t'.face) :
    t.isWord w = t'.isWord w := by
  simp only [isWord, ident?_face h]

theorem isIdent_face {t t' : Token} (h : t.face = t'.face) : t.isIdent = t'.isIdent := by
  simp only [isIdent, ident?_face h]

theorem isOneOf_face {t t' : Token} (words : List Text) (h : t.face = t'.face) :
    t.isOneOf words = t'.isOneOf words := by
  simp only [isOneOf, ident?_face h]

theorem isLiteral_face {t t' : Token} (h : t.face = t'.face) : t.isLiteral = t'.isLiteral :=
  congr_face (fun _ _ _ _ a => by cases a <;> rfl) (fun _ _ _ _ _ _ _ _ _ => rfl) h

theorem isPunct_face {t t' : Token} (c : Char) (h : t.face = t'.face) :
    t.isPunct c = t'.isPunct c :=
  congr_face (fun _ _ _ _ a => by cases a <;> rfl) (fun _ _ _ _ _ _ _ _ _ => rfl) h

theorem isJoint_face {t t' : Token} (c : Char) (h : t.face = t'.face) :
    t.isJoint c = t'.isJoint c :=
  congr_face (fun _ _ _ _ a => by cases a <;> rfl) (fun _ _ _ _ _ _ _ _ _ => rfl) h

theorem isGroup_face {t t' : Token} (d : Delimiter) (h : t.face = t'.face) :
    t.isGroup d = t'.isGroup d :=
  congr_face (fun _ _ _ _ a => by cases a <;> rfl) (fun _ _ _ _ _ _ _ _ _ => rfl) h

theorem isDoc_face {t t' : Token} (h : t.face = t'.face) : t.isDoc = t'.isDoc :=
  congr_face (fun _ _ _ _ a => by cases a <;> rfl) (fun _ _ _ _ _ _ _ _ _ => rfl) h

theorem isPunct_iff {c : Char} {t : Token} :
    t.isPunct c = true ↔ ∃ leading pos joint, t = .atom leading pos (.punct c joint) := by
  constructor
  · intro h
    cases t with
    | group => cases h
    | atom leading pos a =>
      cases a with
      | punct char joint =>
        have : char = c := by simpa [isPunct] using h
        exact ⟨leading, pos, joint, by rw [this]⟩
      | ident => cases h
      | lifetime => cases h
      | literal => cases h
      | doc => cases h
  · rintro ⟨_, _, _, rfl⟩
    simp [isPunct]

theorem isJoint_iff {c : Char} {t : Token} :
    t.isJoint c = true ↔ ∃ leading pos, t = .atom leading pos (.punct c true) := by
  constructor
  · intro h
    cases t with
    | group => cases h
    | atom leading pos a =>
      cases a with
      | punct char joint =>
        obtain ⟨rfl, rfl⟩ : char = c ∧ joint = true := by simpa [isJoint] using h
        exact ⟨leading, pos, rfl⟩
      | ident => cases h
      | lifetime => cases h
      | literal => cases h
      | doc => cases h
  · rintro ⟨_, _, rfl⟩
    simp [isJoint]

theorem isIdent_iff {t : Token} :
    t.isIdent = true ↔ ∃ leading pos name, t = .atom leading pos (.ident name) := by
  constructor
  · intro h
    cases t with
    | group => cases h
    | atom leading pos a =>
      cases a with
      | ident name => exact ⟨leading, pos, name, rfl⟩
      | lifetime => cases h
      | literal => cases h
      | punct => cases h
      | doc => cases h
  · rintro ⟨_, _, _, rfl⟩
    rfl

theorem isGroup_iff {d : Delimiter} {t : Token} :
    t.isGroup d = true ↔
      ∃ leading pos children closeLeading, t = .group leading pos d children closeLeading := by
  constructor
  · intro h
    cases t with
    | atom => cases h
    | group leading pos d' children closeLeading =>
      have : d' = d := by simpa [isGroup] using h
      exact ⟨leading, pos, children, closeLeading, by rw [this]⟩
  · rintro ⟨_, _, _, _, rfl⟩
    simp [isGroup]

theorem isDoc_iff {t : Token} :
    t.isDoc = true ↔ ∃ leading pos marker value, t = .atom leading pos (.doc marker value) := by
  constructor
  · intro h
    cases t with
    | group => cases h
    | atom leading pos a =>
      cases a with
      | doc marker value => exact ⟨leading, pos, marker, value, rfl⟩
      | punct => cases h
      | ident => cases h
      | lifetime => cases h
      | literal => cases h
  · rintro ⟨_, _, _, _, rfl⟩
    rfl

/-! ## Tests -/

/-- Whether the token may belong to an annotation: documentation, or the hash, the bang or
the brackets of an attribute. -/
def isMark (t : Token) : Bool :=
  t.isPunct '#' || t.isPunct '!' || t.isGroup .bracket || t.isDoc

/-- A test by which a reader takes a token: it sees faces only and refuses the hash of
an attribute. -/
structure Selects (p : Token → Bool) : Prop where
  face : ∀ {t t' : Token}, t.face = t'.face → p t = p t'
  hash : ∀ {t : Token}, t.isPunct '#' = true → p t = false

/-- A test at which a reader stops: it sees faces only and passes over annotations. -/
structure Halts (p : Token → Bool) : Prop where
  face : ∀ {t t' : Token}, t.face = t'.face → p t = p t'
  mark : ∀ {t : Token}, t.isMark = true → p t = false

theorem Halts.selects {p : Token → Bool} (h : Halts p) : Selects p :=
  ⟨h.face, fun ht => h.mark (by simp [isMark, ht])⟩

theorem Selects.or {p q : Token → Bool} (hp : Selects p) (hq : Selects q) :
    Selects fun t => p t || q t :=
  ⟨fun h => by rw [hp.face h, hq.face h], fun h => by rw [hp.hash h, hq.hash h]; rfl⟩

theorem Halts.or {p q : Token → Bool} (hp : Halts p) (hq : Halts q) :
    Halts fun t => p t || q t :=
  ⟨fun h => by rw [hp.face h, hq.face h], fun h => by rw [hp.mark h, hq.mark h]; rfl⟩

theorem halts_ident? {p : Token → Bool} (hp : ∀ {t t' : Token}, t.face = t'.face → p t = p t')
    (h : ∀ {t : Token}, t.ident? = none → p t = false) : Halts p := by
  refine ⟨hp, fun {t} ht => h ?_⟩
  simp only [isMark, Bool.or_eq_true] at ht
  rcases ht with ((ht | ht) | ht) | ht
  · obtain ⟨_, _, _, rfl⟩ := isPunct_iff.1 ht
    rfl
  · obtain ⟨_, _, _, rfl⟩ := isPunct_iff.1 ht
    rfl
  · obtain ⟨_, _, _, _, rfl⟩ := isGroup_iff.1 ht
    rfl
  · obtain ⟨_, _, _, _, rfl⟩ := isDoc_iff.1 ht
    rfl

theorem halts_isWord (w : Text) : Halts (isWord w) :=
  halts_ident? (isWord_face w) fun h => by rw [isWord, h]; rfl

theorem halts_isIdent : Halts isIdent :=
  halts_ident? isIdent_face fun h => by rw [isIdent, h]; rfl

theorem halts_isOneOf (words : List Text) : Halts (isOneOf words) :=
  halts_ident? (isOneOf_face words) fun h => by rw [isOneOf, h]; rfl

theorem halts_isPunct {c : Char} (hc : c ≠ '#' ∧ c ≠ '!') : Halts (isPunct c) := by
  refine ⟨isPunct_face c, fun {t} ht => ?_⟩
  simp only [isMark, Bool.or_eq_true] at ht
  rcases ht with ((ht | ht) | ht) | ht
  · obtain ⟨_, _, _, rfl⟩ := isPunct_iff.1 ht
    simpa [isPunct] using hc.1.symm
  · obtain ⟨_, _, _, rfl⟩ := isPunct_iff.1 ht
    simpa [isPunct] using hc.2.symm
  · obtain ⟨_, _, _, _, rfl⟩ := isGroup_iff.1 ht
    rfl
  · obtain ⟨_, _, _, _, rfl⟩ := isDoc_iff.1 ht
    rfl

theorem halts_isGroup {d : Delimiter} (hd : d ≠ .bracket) : Halts (isGroup d) := by
  refine ⟨isGroup_face d, fun {t} ht => ?_⟩
  simp only [isMark, Bool.or_eq_true] at ht
  rcases ht with ((ht | ht) | ht) | ht
  · obtain ⟨_, _, _, rfl⟩ := isPunct_iff.1 ht
    rfl
  · obtain ⟨_, _, _, rfl⟩ := isPunct_iff.1 ht
    rfl
  · obtain ⟨_, _, _, _, rfl⟩ := isGroup_iff.1 ht
    simpa [isGroup] using hd.symm
  · obtain ⟨_, _, _, _, rfl⟩ := isDoc_iff.1 ht
    rfl

theorem selects_isPunct {c : Char} (hc : c ≠ '#') : Selects (isPunct c) := by
  refine ⟨isPunct_face c, fun ht => ?_⟩
  obtain ⟨_, _, _, rfl⟩ := isPunct_iff.1 ht
  simpa [isPunct] using hc.symm

theorem selects_isGroup (d : Delimiter) : Selects (isGroup d) := by
  refine ⟨isGroup_face d, fun ht => ?_⟩
  obtain ⟨_, _, _, rfl⟩ := isPunct_iff.1 ht
  rfl

end Token

/-! ## Cells -/

/-- The form is an attribute, with the marks and brackets of one. -/
def Form.IsAttribute : Form → Prop
  | .marked hash bang bracket =>
    hash.isPunct '#' = true ∧ (∀ t ∈ bang, t.isPunct '!' = true) ∧ bracket.isGroup .bracket = true
  | _ => False

/-- An attribute is a hash, further marks, and brackets. -/
theorem Form.IsAttribute.tokens_eq {f : Form} (h : f.IsAttribute) :
    ∃ hash more bracket, f.tokens = hash :: (more ++ [bracket]) ∧ hash.isPunct '#' = true ∧
      (∀ t ∈ more, t.isPunct '!' = true) ∧ bracket.isGroup .bracket = true := by
  cases f with
  | doc => cases h
  | bare => cases h
  | marked hash bang bracket =>
    obtain ⟨hh, hb, hk⟩ := h
    exact ⟨hash, bang.toList, bracket, rfl, hh, by simpa using hb, hk⟩

theorem Form.IsAttribute.isMark {f : Form} (h : f.IsAttribute) :
    ∀ t ∈ f.tokens, t.isMark = true := by
  obtain ⟨hash, more, bracket, ht, hh, hm, hb⟩ := h.tokens_eq
  rw [ht]
  intro t ht
  simp only [List.mem_cons, List.mem_append, List.not_mem_nil, or_false] at ht
  rcases ht with rfl | ht | rfl
  · simp [Token.isMark, hh]
  · simp [Token.isMark, hm t ht]
  · simp [Token.isMark, hb]

theorem Form.IsAttribute.getLast? {f : Form} (h : f.IsAttribute) :
    ∃ bracket, f.tokens.getLast? = some bracket ∧ bracket.isGroup .bracket = true := by
  obtain ⟨hash, more, bracket, ht, -, -, hb⟩ := h.tokens_eq
  refine ⟨bracket, ?_, hb⟩
  rw [ht, ← List.cons_append]
  exact List.getLast?_concat

/-- A place of two token lists that are compared. -/
inductive Cell where
  /-- A token on either side. -/
  | same (old new : Token)
  /-- An attribute on either side. -/
  | swap (old new : Form)

namespace Cell

/-- The tokens of the first side. -/
def old : Cell → List Token
  | same t _ => [t]
  | swap f _ => f.tokens

/-- The tokens of the second side. -/
def new : Cell → List Token
  | same _ t => [t]
  | swap _ f => f.tokens

/-- The tokens of the first side of some cells. -/
def olds (cells : List Cell) : List Token :=
  cells.flatMap old

/-- The tokens of the second side of some cells. -/
def news (cells : List Cell) : List Token :=
  cells.flatMap new

/-- The tokens of a cell look the same; its attributes are attributes. -/
def Sound : Cell → Prop
  | same t t' => t.face = t'.face
  | swap f f' => f.IsAttribute ∧ f'.IsAttribute

@[simp] theorem olds_nil : olds [] = [] := rfl
@[simp] theorem news_nil : news [] = [] := rfl

@[simp] theorem olds_cons (c : Cell) (cells : List Cell) :
    olds (c :: cells) = c.old ++ olds cells := List.flatMap_cons

@[simp] theorem news_cons (c : Cell) (cells : List Cell) :
    news (c :: cells) = c.new ++ news cells := List.flatMap_cons

@[simp] theorem olds_append (first second : List Cell) :
    olds (first ++ second) = olds first ++ olds second := List.flatMap_append

@[simp] theorem news_append (first second : List Cell) :
    news (first ++ second) = news first ++ news second := List.flatMap_append

theorem olds_flatten (chunks : List (List Cell)) :
    olds chunks.flatten = (chunks.map olds).flatten := by
  induction chunks with
  | nil => rfl
  | cons chunk chunks ih => rw [List.flatten_cons, olds_append, ih, List.map_cons,
      List.flatten_cons]

theorem news_flatten (chunks : List (List Cell)) :
    news chunks.flatten = (chunks.map news).flatten := by
  induction chunks with
  | nil => rfl
  | cons chunk chunks ih => rw [List.flatten_cons, news_append, ih, List.map_cons,
      List.flatten_cons]

/-- The cells of a token list compared with itself. -/
def refl (ts : List Token) : List Cell :=
  ts.map fun t => .same t t

@[simp] theorem olds_refl (ts : List Token) : olds (refl ts) = ts := by
  induction ts with
  | nil => rfl
  | cons t ts ih => rw [refl, List.map_cons, olds_cons, ← refl, ih]; rfl

@[simp] theorem news_refl (ts : List Token) : news (refl ts) = ts := by
  induction ts with
  | nil => rfl
  | cons t ts ih => rw [refl, List.map_cons, news_cons, ← refl, ih]; rfl

theorem sound_refl (ts : List Token) : ∀ c ∈ refl ts, c.Sound := by
  intro c hc
  obtain ⟨t, -, rfl⟩ := List.mem_map.1 hc
  exact rfl

theorem old_ne_nil (c : Cell) : c.old ≠ [] := by
  cases c with
  | same => simp [old]
  | swap f => exact f.tokens_ne_nil

theorem new_ne_nil (c : Cell) : c.new ≠ [] := by
  cases c with
  | same => simp [new]
  | swap _ f => exact f.tokens_ne_nil

theorem olds_eq_nil_iff {cells : List Cell} : olds cells = [] ↔ cells = [] := by
  cases cells with
  | nil => simp
  | cons c cells => simp [old_ne_nil c]

/-- Cells are cut in one way only to give the same tokens on the first side. -/
theorem append_inj {own rest own' rest' : List Cell} (h : own ++ rest = own' ++ rest')
    (ho : olds own = olds own') : own = own' ∧ rest = rest' := by
  rcases List.append_eq_append_iff.1 h with ⟨more, rfl, rfl⟩ | ⟨more, rfl, rfl⟩
  · have : olds more = [] := by simpa using ho.symm
    rw [olds_eq_nil_iff] at this
    simp [this]
  · have : olds more = [] := by simpa using ho
    rw [olds_eq_nil_iff] at this
    simp [this]

theorem append_inj_right {own rest own' rest' : List Cell} (h : own ++ rest = own' ++ rest')
    (hr : olds rest = olds rest') : own = own' ∧ rest = rest' := by
  refine append_inj h ?_
  have := congrArg olds h
  simp only [olds_append, hr, List.append_cancel_right_eq] at this
  exact this

/-- The cells of two lists that look the same. -/
theorem exists_same {ts ts' : List Token} (h : ts.map Token.face = ts'.map Token.face) :
    ∃ cells, olds cells = ts ∧ news cells = ts' ∧ (∀ c ∈ cells, c.Sound) ∧
      (∀ c ∈ cells, ∃ t t', c = .same t t') := by
  induction ts generalizing ts' with
  | nil =>
    obtain rfl : ts' = [] := by simpa using h.symm
    exact ⟨[], rfl, rfl, by simp, by simp⟩
  | cons t ts ih =>
    cases ts' with
    | nil => cases h
    | cons t' ts' =>
      simp only [List.map_cons, List.cons.injEq] at h
      obtain ⟨cells, rfl, rfl, hs, hall⟩ := ih h.2
      refine ⟨.same t t' :: cells, rfl, rfl, ?_, ?_⟩
      · exact List.forall_mem_cons.2 ⟨h.1, hs⟩
      · exact List.forall_mem_cons.2 ⟨⟨t, t', rfl⟩, hall⟩

end Cell

/-- Two divisions of the two sides are made at the same place. -/
def Cuts (cells : List Cell) (r r' : List Token × List Token) : Prop :=
  ∃ own rest, cells = own ++ rest ∧ r = (Cell.olds own, Cell.olds rest) ∧
    r' = (Cell.news own, Cell.news rest)

namespace Cuts

variable {cells : List Cell} {r r' : List Token × List Token}

theorem stop (cells : List Cell) : Cuts cells ([], Cell.olds cells) ([], Cell.news cells) :=
  ⟨[], cells, rfl, rfl, rfl⟩

theorem pass (c : Cell) (h : Cuts cells r r') :
    Cuts (c :: cells) (c.old ++ r.1, r.2) (c.new ++ r'.1, r'.2) := by
  obtain ⟨own, rest, rfl, rfl, rfl⟩ := h
  exact ⟨c :: own, rest, rfl, by simp, by simp⟩

/-- A division that takes no hash stops in front of an attribute. -/
theorem swap {span span' : List Token → List Token × List Token} {f f' : Form}
    (hspan : ∀ {t : Token} (rest), t.isPunct '#' = true → span (t :: rest) = ([], t :: rest))
    (hspan' : ∀ {t : Token} (rest), t.isPunct '#' = true → span' (t :: rest) = ([], t :: rest))
    (hc : (Cell.swap f f').Sound) :
    Cuts (.swap f f' :: cells) (span (Cell.olds (.swap f f' :: cells)))
      (span' (Cell.news (.swap f f' :: cells))) := by
  obtain ⟨hash, more, b, ht, hh, -⟩ := hc.1.tokens_eq
  obtain ⟨hash', more', b', ht', hh', -⟩ := hc.2.tokens_eq
  have hold : span (Cell.olds (.swap f f' :: cells)) = ([], Cell.olds (.swap f f' :: cells)) := by
    rw [Cell.olds_cons, Cell.old, ht, List.cons_append, hspan _ hh]
  have hnew : span' (Cell.news (.swap f f' :: cells)) = ([], Cell.news (.swap f f' :: cells)) := by
    rw [Cell.news_cons, Cell.new, ht', List.cons_append, hspan' _ hh']
  rw [hold, hnew]
  exact stop _

end Cuts

/-! ## Spans -/

/-- The two tokens in front join the same punctuation. -/
def Level (previous previous' : Option Token) : Prop :=
  ∀ c, previous.any (Token.isJoint c) = previous'.any (Token.isJoint c)

theorem level_of_face {t t' : Token} (h : t.face = t'.face) : Level (some t) (some t') :=
  fun c => Token.isJoint_face c h

theorem level_of_bracket {t t' : Token} (h : t.isGroup .bracket = true)
    (h' : t'.isGroup .bracket = true) : Level (some t) (some t') := by
  obtain ⟨_, _, _, _, rfl⟩ := Token.isGroup_iff.1 h
  obtain ⟨_, _, _, _, rfl⟩ := Token.isGroup_iff.1 h'
  intro c
  rfl

namespace Angle

theorem startsArrow_level {previous previous' : Option Token} (h : Level previous previous') :
    startsArrow previous = startsArrow previous' := by
  have hor : ∀ o : Option Token, startsArrow o =
      (o.any (Token.isJoint '-') || o.any (Token.isJoint '=')) := by
    intro o
    cases o <;> rfl
  rw [hor, hor, h, h]

theorem step_level {previous previous' : Option Token} {t t' : Token} {depth : Nat}
    (h : Level previous previous') (hf : t.face = t'.face) :
    step previous t depth = step previous' t' depth := by
  simp only [step, Token.isPunct_face _ hf, startsArrow_level h]

theorem step_mark {t : Token} (ht : t.isMark = true) (previous : Option Token) (depth : Nat) :
    step previous t depth = depth := by
  have hlt := (Token.halts_isPunct (c := '<') (by decide)).mark ht
  have hgt := (Token.halts_isPunct (c := '>') (by decide)).mark ht
  simp [step, hlt, hgt]

theorem spanUntil_marks {stop : Token → Bool} (hstop : Token.Halts stop) {marks : List Token}
    (hmarks : ∀ t ∈ marks, t.isMark = true) (previous : Option Token) (depth : Nat)
    (rest : List Token) :
    spanUntil stop previous depth (marks ++ rest) =
      (marks ++ (spanUntil stop (marks.getLast?.or previous) depth rest).1,
        (spanUntil stop (marks.getLast?.or previous) depth rest).2) := by
  induction marks generalizing previous with
  | nil => rfl
  | cons t marks ih =>
    obtain ⟨ht, hmarks⟩ := List.forall_mem_cons.1 hmarks
    have hlast : (t :: marks).getLast?.or previous = marks.getLast?.or (some t) := by
      cases h : marks.getLast? with
      | none => rw [List.getLast?_eq_none_iff.1 h]; rfl
      | some l => rw [List.getLast?_cons, h]; rfl
    rw [hlast]
    simp only [List.cons_append, spanUntil, hstop.mark ht, Bool.and_false, Bool.false_eq_true,
      ↓reduceIte, step_mark ht, ih hmarks (some t)]

/-- The tokens up to a stop are the same cells on both sides. -/
theorem spanUntil_cuts {stop : Token → Bool} (hstop : Token.Halts stop) {cells : List Cell}
    (hs : ∀ c ∈ cells, c.Sound) {previous previous' : Option Token}
    (hl : Level previous previous') (depth : Nat) :
    Cuts cells (spanUntil stop previous depth (Cell.olds cells))
      (spanUntil stop previous' depth (Cell.news cells)) := by
  induction cells generalizing previous previous' depth with
  | nil => exact .stop []
  | cons c cells ih =>
    obtain ⟨hc, hrest⟩ := List.forall_mem_cons.1 hs
    cases c with
    | same t t' =>
      simp only [Cell.olds_cons, Cell.news_cons, Cell.old, Cell.new, List.cons_append,
        List.nil_append, spanUntil, ← hstop.face hc, ← step_level hl hc]
      split
      · exact .stop (.same t t' :: cells)
      · exact .pass (.same t t') (ih hrest (level_of_face hc) _)
    | swap f f' =>
      obtain ⟨b, hlast, hb⟩ := hc.1.getLast?
      obtain ⟨b', hlast', hb'⟩ := hc.2.getLast?
      simp only [Cell.olds_cons, Cell.news_cons, Cell.old, Cell.new,
        spanUntil_marks hstop hc.1.isMark, spanUntil_marks hstop hc.2.isMark, hlast, hlast']
      exact .pass (.swap f f') (ih hrest (level_of_bracket hb hb') _)

end Angle

/-- Two divisions that may fail are made at the same place or fail both. -/
def CutsOption (cells : List Cell) (r r' : Option (List Token × List Token)) : Prop :=
  (r = none ∧ r' = none) ∨ ∃ s s', r = some s ∧ r' = some s' ∧ Cuts cells s s'

theorem CutsOption.pass {cells : List Cell} {r r' : Option (List Token × List Token)} (c : Cell)
    (h : CutsOption cells r r') :
    CutsOption (c :: cells) (r.map fun s => (c.old ++ s.1, s.2))
      (r'.map fun s => (c.new ++ s.1, s.2)) := by
  rcases h with ⟨rfl, rfl⟩ | ⟨s, s', rfl, rfl, h⟩
  · exact .inl ⟨rfl, rfl⟩
  · exact .inr ⟨_, _, rfl, rfl, h.pass c⟩

/-- A test gives the same answer at the first token of both sides. -/
theorem Cell.head_any {p : Token → Bool} (hp : Token.Selects p) {cells : List Cell}
    (hs : ∀ c ∈ cells, c.Sound) : (olds cells).head?.any p = (news cells).head?.any p := by
  cases cells with
  | nil => rfl
  | cons c cells =>
    have hc := hs c (by simp)
    cases c with
    | same t t' => exact hp.face hc
    | swap f f' =>
      obtain ⟨hash, more, b, ht, hh, -⟩ := hc.1.tokens_eq
      obtain ⟨hash', more', b', ht', hh', -⟩ := hc.2.tokens_eq
      simp [old, new, ht, ht', hp.hash hh, hp.hash hh']

namespace Angle

theorem spanClosing_marks {marks : List Token} (hmarks : ∀ t ∈ marks, t.isMark = true)
    (previous : Token) {depth : Nat} (hd : depth ≠ 0) (rest : List Token) :
    spanClosing previous depth (marks ++ rest) =
      (spanClosing (marks.getLast?.getD previous) depth rest).map
        fun s => (marks ++ s.1, s.2) := by
  induction marks generalizing previous with
  | nil => simp
  | cons t marks ih =>
    obtain ⟨ht, hrest⟩ := List.forall_mem_cons.1 hmarks
    have hlast : (t :: marks).getLast?.getD previous = marks.getLast?.getD t := by
      rw [List.getLast?_cons]
      rfl
    rw [hlast, List.cons_append, spanClosing, step_mark ht, if_neg hd, ih hrest t,
      Option.map_map]
    rfl

theorem spanClosing_cuts {cells : List Cell} (hs : ∀ c ∈ cells, c.Sound)
    {previous previous' : Token} (hl : Level (some previous) (some previous')) {depth : Nat}
    (hd : depth ≠ 0) :
    CutsOption cells (spanClosing previous depth (Cell.olds cells))
      (spanClosing previous' depth (Cell.news cells)) := by
  induction cells generalizing previous previous' depth with
  | nil => exact .inl ⟨rfl, rfl⟩
  | cons c cells ih =>
    obtain ⟨hc, hrest⟩ := List.forall_mem_cons.1 hs
    cases c with
    | same t t' =>
      simp only [Cell.olds_cons, Cell.news_cons, Cell.old, Cell.new, List.cons_append,
        List.nil_append, spanClosing, ← step_level hl hc]
      split
      · exact .inr ⟨_, _, rfl, rfl, .pass (.same t t') (.stop cells)⟩
      · rename_i hd'
        exact .pass (.same t t') (ih hrest (level_of_face hc) hd')
    | swap f f' =>
      obtain ⟨b, hlast, hb⟩ := hc.1.getLast?
      obtain ⟨b', hlast', hb'⟩ := hc.2.getLast?
      simp only [Cell.olds_cons, Cell.news_cons, Cell.old, Cell.new,
        spanClosing_marks hc.1.isMark _ hd, spanClosing_marks hc.2.isMark _ hd, hlast, hlast']
      exact .pass (.swap f f') (ih hrest (level_of_bracket hb hb') hd)

/-- A list of generic parameters is the same cells on both sides. -/
theorem spanGenerics_cuts {cells : List Cell} (hs : ∀ c ∈ cells, c.Sound) :
    CutsOption cells (spanGenerics (Cell.olds cells)) (spanGenerics (Cell.news cells)) := by
  cases cells with
  | nil => exact .inr ⟨_, _, rfl, rfl, .stop []⟩
  | cons c cells =>
    obtain ⟨hc, hrest⟩ := List.forall_mem_cons.1 hs
    cases c with
    | same t t' =>
      simp only [Cell.olds_cons, Cell.news_cons, Cell.old, Cell.new, List.cons_append,
        List.nil_append, spanGenerics, ← Token.isPunct_face '<' hc]
      split
      · exact .pass (.same t t') (spanClosing_cuts hrest (level_of_face hc) (by decide))
      · exact .inr ⟨_, _, rfl, rfl, .stop (.same t t' :: cells)⟩
    | swap f f' =>
      have hstop : ∀ {t : Token} (rest), t.isPunct '#' = true →
          spanGenerics (t :: rest) = some ([], t :: rest) := by
        intro t rest ht
        obtain ⟨_, _, _, rfl⟩ := Token.isPunct_iff.1 ht
        rfl
      obtain ⟨hash, more, b, ht, hh, -⟩ := hc.1.tokens_eq
      obtain ⟨hash', more', b', ht', hh', -⟩ := hc.2.tokens_eq
      refine .inr ⟨_, _, ?_, ?_, .stop (.swap f f' :: cells)⟩
      · rw [Cell.olds_cons, Cell.old, ht, List.cons_append, hstop _ hh]
      · rw [Cell.news_cons, Cell.new, ht', List.cons_append, hstop _ hh']

end Angle

/-- The tokens up to any stop are the same cells on both sides. -/
theorem takeWhile_cuts {stop : Token → Bool} (hstop : Token.Halts stop) {cells : List Cell}
    (hs : ∀ c ∈ cells, c.Sound) :
    Cuts cells
      ((Cell.olds cells).takeWhile (!stop ·), (Cell.olds cells).dropWhile (!stop ·))
      ((Cell.news cells).takeWhile (!stop ·), (Cell.news cells).dropWhile (!stop ·)) := by
  induction cells with
  | nil => exact .stop []
  | cons c cells ih =>
    obtain ⟨hc, hrest⟩ := List.forall_mem_cons.1 hs
    cases c with
    | same t t' =>
      by_cases ht : stop t = true
      · have ht' : stop t' = true := by rw [← hstop.face hc]; exact ht
        simp only [Cell.olds_cons, Cell.news_cons, Cell.old, Cell.new, List.cons_append,
          List.nil_append, List.takeWhile_cons, List.dropWhile_cons, ht, ht', Bool.not_true,
          Bool.false_eq_true, ↓reduceIte]
        exact .stop (.same t t' :: cells)
      · rw [Bool.not_eq_true] at ht
        have ht' : stop t' = false := by rw [← hstop.face hc]; exact ht
        simp only [Cell.olds_cons, Cell.news_cons, Cell.old, Cell.new, List.cons_append,
          List.nil_append, List.takeWhile_cons, List.dropWhile_cons, ht, ht', Bool.not_false,
          ↓reduceIte]
        exact .pass (.same t t') (ih hrest)
    | swap f f' =>
      have hmarks : ∀ {g : Form}, g.IsAttribute → ∀ t ∈ g.tokens, (!stop t) = true := by
        intro g hg t ht
        rw [hstop.mark (hg.isMark t ht)]
        rfl
      simp only [Cell.olds_cons, Cell.news_cons, Cell.old, Cell.new,
        List.takeWhile_append_of_pos (hmarks hc.1), List.dropWhile_append_of_pos (hmarks hc.1),
        List.takeWhile_append_of_pos (hmarks hc.2), List.dropWhile_append_of_pos (hmarks hc.2)]
      exact .pass (.swap f f') (ih hrest)

/-! ## Words and visibility -/

/-- Qualifiers are the same cells on both sides. -/
theorem spanQualifiers_cuts (words : List Text) {cells : List Cell} (hs : ∀ c ∈ cells, c.Sound)
    {previous previous' : Option Token}
    (hp : previous.any (Token.isWord "extern") = previous'.any (Token.isWord "extern")) :
    Cuts cells (spanQualifiers words previous (Cell.olds cells))
      (spanQualifiers words previous' (Cell.news cells)) := by
  induction cells generalizing previous previous' with
  | nil => exact .stop []
  | cons c cells ih =>
    obtain ⟨hc, hrest⟩ := List.forall_mem_cons.1 hs
    cases c with
    | same t t' =>
      simp only [Cell.olds_cons, Cell.news_cons, Cell.old, Cell.new, List.cons_append,
        List.nil_append, spanQualifiers, ← Token.isOneOf_face words hc, ← Token.isLiteral_face hc,
        ← hp]
      split
      · exact .pass (.same t t') (ih hrest (Token.isWord_face _ hc))
      · exact .stop (.same t t' :: cells)
    | swap f f' =>
      have hstop : ∀ {previous : Option Token} {t : Token} (rest), t.isPunct '#' = true →
          spanQualifiers words previous (t :: rest) = ([], t :: rest) := by
        intro previous t rest ht
        obtain ⟨_, _, _, rfl⟩ := Token.isPunct_iff.1 ht
        rfl
      exact .swap hstop hstop hc

theorem spanVisibility_cons (t : Token) (rest : List Token) :
    spanVisibility (t :: rest) =
      if t.isWord "pub" then
        if rest.head?.any (Token.isGroup .paren) then (t :: rest.take 1, rest.drop 1)
        else ([t], rest)
      else ([], t :: rest) := by
  cases rest with
  | nil => simp [spanVisibility]
  | cons scope more => simp [spanVisibility]

/-- The visibility is the same cells on both sides. -/
theorem spanVisibility_cuts {cells : List Cell} (hs : ∀ c ∈ cells, c.Sound) :
    Cuts cells (spanVisibility (Cell.olds cells)) (spanVisibility (Cell.news cells)) := by
  cases cells with
  | nil => exact .stop []
  | cons c cells =>
    obtain ⟨hc, hrest⟩ := List.forall_mem_cons.1 hs
    cases c with
    | same t t' =>
      have hscope := Cell.head_any (Token.selects_isGroup .paren) hrest
      simp only [Cell.olds_cons, Cell.news_cons, Cell.old, Cell.new, List.cons_append,
        List.nil_append, spanVisibility_cons, ← Token.isWord_face _ hc, ← hscope]
      split
      · split
        · rename_i hgroup
          -- a group in parentheses is no attribute, so it is a cell of its own
          cases cells with
          | nil => cases hgroup
          | cons d cells =>
            cases d with
            | same u u' => exact .pass (.same t t') (.pass (.same u u') (.stop cells))
            | swap f f' =>
              have hd : (Cell.swap f f').Sound := hrest _ (by simp)
              obtain ⟨hash, more, b, ht, hh, -⟩ := hd.1.tokens_eq
              have hp := (Token.selects_isGroup .paren).hash hh
              simp [Cell.old, ht, hp] at hgroup
        · exact .pass (.same t t') (.stop cells)
      · exact .stop (.same t t' :: cells)
    | swap f f' =>
      have hstop : ∀ {t : Token} (rest), t.isPunct '#' = true →
          spanVisibility (t :: rest) = ([], t :: rest) := by
        intro t rest ht
        rw [spanVisibility_cons, (Token.halts_isWord "pub").selects.hash ht]
        rfl
      exact .swap hstop hstop hc

/-! ## Invocations -/

theorem AttributePath.isSeparator_face {t t' u u' : Token} (ht : t.face = t'.face)
    (hu : u.face = u'.face) : isSeparator t u = isSeparator t' u' := by
  simp only [isSeparator, Token.isJoint_face _ ht, Token.isPunct_face _ hu]

theorem AttributePath.isSeparator_hash (t : Token) {hash : Token}
    (h : hash.isPunct '#' = true) : isSeparator t hash = false := by
  obtain ⟨_, _, _, rfl⟩ := Token.isPunct_iff.1 h
  simp [isSeparator, Token.isPunct]

theorem spanInvocation_cons (segment mark : Token) (rest : List Token) :
    spanInvocation (segment :: mark :: rest) =
      if !segment.isIdent then none
      else if mark.isPunct '!' then some ([segment], mark :: rest)
      else
        match rest with
        | second :: more =>
          if AttributePath.isSeparator mark second then
            (spanInvocation more).map fun s => (segment :: mark :: second :: s.1, s.2)
          else none
        | [] => none :=
  spanInvocation.eq_def _

/-- No invocation starts with what is no identifier. -/
theorem spanInvocation_none {t : Token} (h : t.isIdent = false) (rest : List Token) :
    spanInvocation (t :: rest) = none := by
  cases rest with
  | nil => rfl
  | cons u rest => simp [spanInvocation_cons, h]

/-- None goes on with an attribute. -/
theorem spanInvocation_attribute {f : Form} (hf : f.IsAttribute) (t : Token) (rest : List Token) :
    spanInvocation (t :: (f.tokens ++ rest)) = none := by
  obtain ⟨hash, more, b, htokens, hh, -⟩ := hf.tokens_eq
  obtain ⟨_, _, _, rfl⟩ := Token.isPunct_iff.1 hh
  rw [htokens]
  cases more <;>
    simp [spanInvocation_cons, Token.isPunct, AttributePath.isSeparator, Token.isJoint]

/-- The path of an invocation behind its first colons is the same cells on both sides. -/
theorem spanInvocation_cuts : ∀ {cells : List Cell}, (∀ c ∈ cells, c.Sound) →
    CutsOption cells (spanInvocation (Cell.olds cells)) (spanInvocation (Cell.news cells))
  | [], _ => .inl ⟨rfl, rfl⟩
  | .swap f f' :: cells, hs => by
    have hc : (Cell.swap f f').Sound := hs _ (by simp)
    obtain ⟨hash, more, b, ht, hh, -⟩ := hc.1.tokens_eq
    obtain ⟨hash', more', b', ht', hh', -⟩ := hc.2.tokens_eq
    refine .inl ⟨?_, ?_⟩
    · rw [Cell.olds_cons, Cell.old, ht]
      exact spanInvocation_none (Token.halts_isIdent.selects.hash hh) _
    · rw [Cell.news_cons, Cell.new, ht']
      exact spanInvocation_none (Token.halts_isIdent.selects.hash hh') _
  | [.same t t'], _ => .inl ⟨rfl, rfl⟩
  | .same t t' :: .swap f f' :: cells, hs => by
    have hc : (Cell.swap f f').Sound := hs _ (by simp)
    exact .inl ⟨spanInvocation_attribute hc.1 t _, spanInvocation_attribute hc.2 t' _⟩
  | .same t t' :: .same u u' :: cells, hs => by
    have ht : t.face = t'.face := hs (.same t t') (by simp)
    have hu : u.face = u'.face := hs (.same u u') (by simp)
    have hrest : ∀ c ∈ cells, c.Sound := fun c hc => hs c (by simp [hc])
    simp only [Cell.olds_cons, Cell.news_cons, Cell.old, Cell.new, List.cons_append,
      List.nil_append, spanInvocation_cons, ← Token.isIdent_face ht, ← Token.isPunct_face _ hu]
    split
    · exact .inl ⟨rfl, rfl⟩
    split
    · exact .inr ⟨_, _, rfl, rfl, .pass (.same t t') (.stop (.same u u' :: cells))⟩
    cases cells with
    | nil => exact .inl ⟨rfl, rfl⟩
    | cons c cells =>
      cases c with
      | same v v' =>
        have hv : v.face = v'.face := hrest (.same v v') (by simp)
        simp only [Cell.olds_cons, Cell.news_cons, Cell.old, Cell.new, List.cons_append,
          List.nil_append, ← AttributePath.isSeparator_face hu hv]
        split
        · have h := @spanInvocation_cuts cells fun c hc => hrest c (by simp [hc])
          have h' := ((h.pass (.same v v')).pass (.same u u')).pass (.same t t')
          rw [Option.map_map, Option.map_map, Option.map_map, Option.map_map] at h'
          exact h'
        · exact .inl ⟨rfl, rfl⟩
      | swap f f' =>
        have hc : (Cell.swap f f').Sound := hrest _ (by simp)
        obtain ⟨hash, more, b, ht, hh, -⟩ := hc.1.tokens_eq
        obtain ⟨hash', more', b', ht', hh', -⟩ := hc.2.tokens_eq
        refine .inl ⟨?_, ?_⟩
        · simp [Cell.old, ht, AttributePath.isSeparator_hash u hh]
        · simp [Cell.new, ht', AttributePath.isSeparator_hash u' hh']

/-- The path of an invocation is the same cells on both sides. -/
theorem spanInvocationPath_cuts {cells : List Cell} (hs : ∀ c ∈ cells, c.Sound) :
    CutsOption cells (spanInvocationPath (Cell.olds cells))
      (spanInvocationPath (Cell.news cells)) := by
  cases cells with
  | nil => exact .inl ⟨rfl, rfl⟩
  | cons c cells =>
    obtain ⟨hc, hrest⟩ := List.forall_mem_cons.1 hs
    cases c with
    | swap f f' =>
      have hpath : ∀ {g : Form} (rest : List Token), g.IsAttribute →
          spanInvocationPath (g.tokens ++ rest) = none := by
        intro g rest hg
        obtain ⟨hash, more, b, ht, hh, -⟩ := hg.tokens_eq
        obtain ⟨_, _, _, rfl⟩ := Token.isPunct_iff.1 hh
        rw [ht]
        cases more with
        | nil =>
          simp only [List.nil_append, List.cons_append, spanInvocationPath, Token.isJoint]
          exact spanInvocation_none rfl _
        | cons m more =>
          simp only [List.cons_append, spanInvocationPath, Token.isJoint]
          exact spanInvocation_none rfl _
      exact .inl ⟨hpath _ hc.1, hpath _ hc.2⟩
    | same t t' =>
      cases cells with
      | nil => exact .inl ⟨rfl, rfl⟩
      | cons d cells =>
        cases d with
        | same u u' =>
          have hu : u.face = u'.face := hrest (.same u u') (by simp)
          simp only [Cell.olds_cons, Cell.news_cons, Cell.old, Cell.new, List.cons_append,
            List.nil_append, spanInvocationPath, ← Token.isJoint_face _ hc]
          split
          · have h := @spanInvocation_cuts cells fun c hc => hrest c (by simp [hc])
            have h' := (h.pass (.same u u')).pass (.same t t')
            rw [Option.map_map, Option.map_map] at h'
            exact h'
          · exact spanInvocation_cuts hs
        | swap f f' =>
          -- behind a joint colon the hash would be taken along, but no segment follows it
          have hd : (Cell.swap f f').Sound := hrest _ (by simp)
          have hpath : ∀ {g : Form} (s : Token) (rest : List Token), g.IsAttribute →
              spanInvocationPath (s :: (g.tokens ++ rest)) = none := by
            intro g s rest hg
            have hnone := spanInvocation_attribute hg s rest
            obtain ⟨hash, more, b, ht, -, hm, hb⟩ := hg.tokens_eq
            rw [ht] at hnone ⊢
            rw [List.cons_append] at hnone
            rw [List.cons_append, spanInvocationPath, hnone]
            have hinside : spanInvocation (more ++ [b] ++ rest) = none := by
              cases more with
              | nil =>
                obtain ⟨_, _, _, _, rfl⟩ := Token.isGroup_iff.1 hb
                exact spanInvocation_none rfl _
              | cons m more =>
                obtain ⟨_, _, _, rfl⟩ := Token.isPunct_iff.1 (hm m (by simp))
                exact spanInvocation_none rfl _
            rw [hinside]
            split <;> rfl
          exact .inl ⟨hpath t _ hd.1, hpath t' _ hd.2⟩

end CondAttrs
