import CondAttrs.Proofs.Reading.Place
import CondAttrs.Proofs.Reading.Reread

/-!
# Attachment points are independent

The annotations of one attachment point of a declaration are exchanged for any others, and
the declaration is read again. Nothing else changes: the same declaration ends at the same
token, its other points keep their annotations with their faults, and the output differs in
the annotations that were exchanged only.

Annotations stand at the start of a member, and the scan that looks for its end goes over
them without a trace. So a member with other annotations ends where it did. In a variant
whose fields have other annotations, one group has other tokens inside, which the scan does
not see.

## Main definitions

* `Chunk.Exchanged`: a member with other annotations.
* `Piece.Differs`: pieces that differ in the annotations of one point.

## Main statements

* `Chunk.Divides.split_exchanged`: members are found again if one has other annotations.
* `Item.parse_exchange`: a declaration with other annotations at one point.
-/

namespace CondAttrs

/-! ## Members with other annotations -/

theorem Form.Proper.isMark {f : Form} (h : f.Proper) : ∀ t ∈ f.tokens, t.isMark = true := by
  rcases h with hdoc | hattr
  · cases f with
    | doc => simp [tokens, Token.isMark, Token.isDoc]
    | marked => cases hdoc
    | bare => cases hdoc
  · exact hattr.isMark

/-- An annotation does not end with punctuation. -/
theorem Form.Proper.level {f : Form} (h : f.Proper) : Level f.tokens.getLast? none := by
  rcases h with hdoc | hattr
  · cases f with
    | doc => exact fun _ => rfl
    | marked => cases hdoc
    | bare => cases hdoc
  · obtain ⟨bracket, hlast, hb⟩ := hattr.getLast?
    obtain ⟨_, _, _, _, rfl⟩ := Token.isGroup_iff.1 hb
    rw [hlast]
    exact fun _ => rfl

namespace Form

variable {forms : List Form} (h : ∀ f ∈ forms, f.Proper)

include h

theorem isMark_flatMap : ∀ t ∈ forms.flatMap tokens, t.isMark = true := by
  intro t ht
  obtain ⟨f, hf, ht⟩ := List.mem_flatMap.1 ht
  exact (h f hf).isMark t ht

theorem level_flatMap : Level (forms.flatMap tokens).getLast? none := by
  induction forms with
  | nil => exact fun _ => rfl
  | cons f forms ih =>
    obtain ⟨hf, hforms⟩ := List.forall_mem_cons.1 h
    rw [List.flatMap_cons, List.getLast?_append]
    cases hlast : (forms.flatMap tokens).getLast? with
    | none => exact hf.level
    | some t =>
      rw [Option.some_or, ← hlast]
      exact ih hforms

end Form

namespace Chunk

/-- Divisions of the same tokens are the same if they are made in step. -/
theorem eq_of_cuts {tokens : List Token} {r r' : List Token × List Token}
    (h : Cuts (Cell.refl tokens) r r') : r = r' := by
  obtain ⟨own, rest, hcells, rfl, rfl⟩ := h
  obtain ⟨first, last, -, rfl, rfl⟩ := List.map_eq_append_iff.1 hcells
  exact congrArg₂ Prod.mk ((Cell.olds_refl first).trans (Cell.news_refl first).symm)
    ((Cell.olds_refl last).trans (Cell.news_refl last).symm)

/-- A scan is where it was when it has passed over annotations. -/
theorem Progress.level_forms {forms : List Form} (h : ∀ f ∈ forms, f.Proper) :
    Level { previous := (forms.flatMap Form.tokens).getLast?.or none } {} :=
  ⟨by rw [Option.or_none]; exact Form.level_flatMap h, rfl, rfl⟩

theorem spanField_level {p p' : Progress} (h : p.Level p') (tokens : List Token) :
    spanField p tokens = spanField p' tokens := by
  have hcuts := spanField_cuts (Cell.sound_refl tokens) h
  rw [Cell.olds_refl, Cell.news_refl] at hcuts
  exact eq_of_cuts hcuts

theorem spanMember_level {p p' : Progress} (h : p.Level p') (tokens : List Token) :
    spanMember p tokens = spanMember p' tokens := by
  have hcuts := spanMember_cuts (Cell.sound_refl tokens) h
  rw [Cell.olds_refl, Cell.news_refl] at hcuts
  exact eq_of_cuts hcuts

/-- The scan that finds the members of a group. It goes over annotations without a trace,
and it sees nothing of what follows a member but a semicolon. -/
structure Divides (span : List Token → List Token × List Token)
    (split : List Token → List (List Token)) : Prop where
  nil : split [] = []
  cons : ∀ {tokens}, tokens ≠ [] → split tokens = (span tokens).1 :: split (span tokens).2
  append : ∀ tokens, (span tokens).1 ++ (span tokens).2 = tokens
  inStep : SplitsInStep split
  forms : ∀ {forms : List Form}, (∀ f ∈ forms, f.Proper) → ∀ rest,
    span (forms.flatMap Form.tokens ++ rest) =
      (forms.flatMap Form.tokens ++ (span rest).1, (span rest).2)
  again : ∀ {tokens rest' : List Token}, (span tokens).2 ≠ [] →
    (rest'.head?.any (Token.isPunct ';') = true →
      (span tokens).2.head?.any (Token.isPunct ';') = true) →
    span ((span tokens).1 ++ rest') = ((span tokens).1, rest')

theorem spanField_ne_nil (p : Progress) (t : Token) (rest : List Token) :
    (spanField p (t :: rest)).1 ≠ [] := by
  simp only [spanField]
  split <;> simp

theorem spanMember_ne_nil (p : Progress) (t : Token) (rest : List Token) :
    (spanMember p (t :: rest)).1 ≠ [] := by
  simp only [spanMember]
  split
  · simp
  · split <;> simp

/-- A token is followed by the same one if the rest behind its member is exchanged. -/
theorem head?_append_of_span {span : List Token → List Token × List Token}
    (happend : ∀ tokens, (span tokens).1 ++ (span tokens).2 = tokens)
    (hne : ∀ t rest, (span (t :: rest)).1 ≠ []) {tokens : List Token}
    (h : (span tokens).2 ≠ []) (rest' : List Token) :
    ((span tokens).1 ++ rest').head? = tokens.head? := by
  obtain ⟨t, tokens, rfl⟩ : ∃ t more, tokens = t :: more := by
    apply List.exists_cons_of_ne_nil
    rintro rfl
    exact h (List.append_eq_nil_iff.1 (happend [])).2
  have hown := hne t tokens
  conv_rhs => rw [← happend (t :: tokens)]
  rw [List.head?_append_of_ne_nil _ hown, List.head?_append_of_ne_nil _ hown]

theorem spanField_again {p : Progress} {tokens : List Token} (h : (spanField p tokens).2 ≠ [])
    (rest' : List Token) :
    spanField p ((spanField p tokens).1 ++ rest') = ((spanField p tokens).1, rest') := by
  induction tokens generalizing p with
  | nil => cases h rfl
  | cons t tokens ih =>
    simp only [spanField] at h ⊢
    split
    · rename_i hcomma
      simp [spanField, hcomma]
    · rename_i hcomma
      rw [if_neg hcomma] at h
      have hnext := head?_append_of_span (spanField_append _) (spanField_ne_nil _) h rest'
      simp only [List.cons_append, spanField, if_neg hcomma, hnext, ih h]

theorem spanSemicolon_again {tokens rest' : List Token}
    (h : rest'.head?.any (Token.isPunct ';') = true →
      (spanSemicolon tokens).2.head?.any (Token.isPunct ';') = true) :
    spanSemicolon ((spanSemicolon tokens).1 ++ rest') = ((spanSemicolon tokens).1, rest') := by
  have hstop : rest'.head?.any (Token.isPunct ';') = false → spanSemicolon rest' = ([], rest') := by
    cases rest' with
    | nil => exact fun _ => rfl
    | cons t rest' =>
      intro ht
      have hsemi : t.isPunct ';' = false := ht
      simp [spanSemicolon, hsemi]
  cases tokens with
  | nil => exact hstop (Bool.eq_false_iff.2 fun hrest => Bool.false_ne_true (h hrest))
  | cons t tokens =>
    by_cases hsemi : t.isPunct ';' = true
    · simp [spanSemicolon, hsemi]
    · simp only [spanSemicolon, if_neg hsemi] at h ⊢
      exact hstop (Bool.eq_false_iff.2 fun hrest => hsemi (h hrest))

theorem spanMember_again {p : Progress} {tokens rest' : List Token}
    (h : (spanMember p tokens).2 ≠ [])
    (hrest : rest'.head?.any (Token.isPunct ';') = true →
      (spanMember p tokens).2.head?.any (Token.isPunct ';') = true) :
    spanMember p ((spanMember p tokens).1 ++ rest') = ((spanMember p tokens).1, rest') := by
  induction tokens generalizing p with
  | nil => cases h rfl
  | cons t tokens ih =>
    simp only [spanMember] at h hrest ⊢
    split
    · rename_i hsemi
      simp [spanMember, hsemi]
    rename_i hsemi
    rw [if_neg hsemi] at h hrest
    split
    · rename_i hbrace
      rw [if_pos hbrace] at h hrest
      simp only [List.cons_append, spanMember, if_neg hsemi, if_pos hbrace,
        spanSemicolon_again hrest]
    · rename_i hbrace
      rw [if_neg hbrace] at h hrest
      have hnext := head?_append_of_span (spanMember_append _) (spanMember_ne_nil _) h rest'
      simp only [List.cons_append, spanMember, if_neg hsemi, if_neg hbrace, hnext, ih h hrest]

theorem divides_fields : Divides (spanField {}) splitFields where
  nil := by rw [splitFields]
  cons h := by
    obtain ⟨t, rest, rfl⟩ := List.exists_cons_of_ne_nil h
    rw [splitFields]
  append := spanField_append _
  inStep := splitFields_inStep
  forms h rest := by
    rw [spanField_marks (Form.isMark_flatMap h), spanField_level (Progress.level_forms h)]
  again h _ := spanField_again h _

theorem divides_members : Divides (spanMember {}) splitMembers where
  nil := by rw [splitMembers]
  cons h := by
    obtain ⟨t, rest, rfl⟩ := List.exists_cons_of_ne_nil h
    rw [splitMembers]
  append := spanMember_append _
  inStep := splitMembers_inStep
  forms h rest := by
    rw [spanMember_marks (Form.isMark_flatMap h), spanMember_level (Progress.level_forms h)]
  again h hrest := spanMember_again h hrest

/-- The chunk of a member with other annotations: annotations in front are exchanged, or
what is inside its groups is. -/
inductive Exchanged : List Token → List Token → Prop
  /-- Annotations in front. -/
  | front {forms forms' : List Form} (h : ∀ f ∈ forms, f.Proper) (h' : ∀ f ∈ forms', f.Proper)
      (hne : forms' ≠ []) (body : List Token) :
      Exchanged (forms.flatMap Form.tokens ++ body) (forms'.flatMap Form.tokens ++ body)
  /-- The inside of groups. -/
  | inside {chunk chunk' : List Token} (h : chunk.map Token.face = chunk'.map Token.face) :
      Exchanged chunk chunk'

namespace Divides

variable {span : List Token → List Token × List Token} {split : List Token → List (List Token)}
  (h : Divides span split)

include h

theorem split_front {forms forms' : List Form} (hforms : ∀ f ∈ forms, f.Proper)
    (hforms' : ∀ f ∈ forms', f.Proper) (hne : forms' ≠ []) {body tokens : List Token}
    {first last : List (List Token)}
    (hsplit : split tokens = first ++ (forms.flatMap Form.tokens ++ body) :: last) :
    split (first.flatten ++ (forms'.flatMap Form.tokens ++ body) ++ last.flatten) =
      first ++ (forms'.flatMap Form.tokens ++ body) :: last := by
  have hnew : forms'.flatMap Form.tokens ≠ [] := by
    obtain ⟨f, more, rfl⟩ := List.exists_cons_of_ne_nil hne
    rw [List.flatMap_cons]
    exact List.append_ne_nil_of_left_ne_nil f.tokens_ne_nil _
  have htokens : ∀ {tokens chunk chunks}, split tokens = chunk :: chunks →
      tokens ≠ [] ∧ (span tokens).1 = chunk ∧ split (span tokens).2 = chunks := by
    intro tokens chunk chunks hchunks
    have hne : tokens ≠ [] := by
      rintro rfl
      rw [h.nil] at hchunks
      cases hchunks
    rw [h.cons hne] at hchunks
    exact ⟨hne, List.cons.inj hchunks⟩
  induction first generalizing tokens with
  | nil =>
    obtain ⟨-, hspan, hrest⟩ := htokens hsplit
    have hlast : last.flatten = (span tokens).2 := by rw [← hrest, h.inStep.flatten]
    have hbody : span (body ++ (span tokens).2) = (body, (span tokens).2) := by
      have happend := h.append tokens
      rw [hspan, List.append_assoc] at happend
      have hforms := h.forms hforms (body ++ (span tokens).2)
      rw [happend] at hforms
      refine Prod.ext ?_ (congrArg Prod.snd hforms).symm
      exact List.append_cancel_left ((congrArg Prod.fst hforms).symm.trans hspan)
    rw [List.flatten_nil, List.nil_append, List.append_assoc, hlast,
      h.cons (List.append_ne_nil_of_left_ne_nil hnew _), h.forms hforms', hbody, hrest]
    rfl
  | cons chunk first ih =>
    rw [List.cons_append] at hsplit
    obtain ⟨-, rfl, hrest⟩ := htokens hsplit
    have hbehind : (span tokens).2 ≠ [] := by
      intro hnil
      rw [hnil, h.nil] at hrest
      simp at hrest
    have hagain := @h.again tokens
      (first.flatten ++ (forms'.flatMap Form.tokens ++ body) ++ last.flatten) hbehind ?_
    · rw [List.flatten_cons, List.append_assoc, List.append_assoc, ← List.append_assoc first.flatten,
        h.cons (by simp [hnew]), hagain, ih hrest]
      rfl
    · have hflatten := h.inStep.flatten (span tokens).2
      rw [hrest] at hflatten
      cases hfirst : first.flatten with
      | nil =>
        obtain ⟨t, more, hmore⟩ := List.exists_cons_of_ne_nil hnew
        have ht := Form.isMark_flatMap hforms' t (by rw [hmore]; exact List.mem_cons_self)
        have hsemi := (Token.halts_isPunct (c := ';') (by decide)).mark ht
        rw [hmore]
        intro hhead
        exact absurd hhead (by simp [hsemi])
      | cons t more =>
        rw [← hflatten, List.flatten_append, hfirst]
        exact id

/-- Members are found again if one of them has other annotations. -/
theorem split_exchanged {chunk chunk' tokens : List Token} (hexchanged : Exchanged chunk chunk')
    {first last : List (List Token)} (hsplit : split tokens = first ++ chunk :: last) :
    split (first.flatten ++ chunk' ++ last.flatten) = first ++ chunk' :: last := by
  cases hexchanged with
  | front hforms hforms' hne body => exact h.split_front hforms hforms' hne hsplit
  | inside hface =>
    obtain ⟨cells, rfl, rfl, hs, -⟩ := Cell.exists_same hface
    have holds : (first.map Cell.refl ++ cells :: last.map Cell.refl).map Cell.olds =
        first ++ Cell.olds cells :: last := by
      simp [Function.comp_def]
    have hnews : (first.map Cell.refl ++ cells :: last.map Cell.refl).map Cell.news =
        first ++ Cell.news cells :: last := by
      simp [Function.comp_def]
    have hagain := @SplitsInStep.split_news _ h.inStep
      (first.map Cell.refl ++ cells :: last.map Cell.refl) ?_ ?_
    · rw [hnews, Cell.news_flatten, hnews] at hagain
      simpa using hagain
    · intro k hk
      rcases List.mem_append.1 hk with hk | hk
      · obtain ⟨chunk, -, rfl⟩ := List.mem_map.1 hk
        exact Cell.sound_refl chunk
      · rcases List.mem_cons.1 hk with rfl | hk
        · exact hs
        · obtain ⟨chunk, -, rfl⟩ := List.mem_map.1 hk
          exact Cell.sound_refl chunk
    · rw [Cell.olds_flatten, holds, ← hsplit, h.inStep.flatten]

end Divides

end Chunk

/-! ## Pieces with other annotations -/

/-- The pieces have the same points but for `p` and `p'`, and the same text around the
annotations of these. -/
structure Piece.Differs (p p' : Point) (first last : List Point) (pieces pieces' : List Piece) :
    Prop where
  points : pieces.filterMap point? = first ++ p :: last
  points' : pieces'.filterMap point? = first ++ p' :: last
  text : ∀ g : Attachment → Text, ∃ before after,
    pieces.flatMap (fill g) = before ++ p.attachments.flatMap g ++ after ∧
      pieces'.flatMap (fill g) = before ++ p'.attachments.flatMap g ++ after

@[simp] theorem Piece.filterMap_fixed (text : Text) (pieces : List Piece) :
    (Piece.fixed text :: pieces).filterMap Piece.point? = pieces.filterMap Piece.point? := rfl

@[simp] theorem Piece.filterMap_slot (p : Point) (pieces : List Piece) :
    (Piece.slot p :: pieces).filterMap Piece.point? = p :: pieces.filterMap Piece.point? := rfl

namespace Piece.Differs

variable {p p' : Point} {first last : List Point} {pieces pieces' : List Piece}

theorem slot (p p' : Point) (h : pieces.filterMap point? = last) :
    Differs p p' [] last (.slot p :: pieces) (.slot p' :: pieces) :=
  ⟨congrArg (p :: ·) h, congrArg (p' :: ·) h, fun g => ⟨[], pieces.flatMap (fill g), rfl, rfl⟩⟩

theorem frame (h : Differs p p' first last pieces pieces') (front back : List Piece) :
    Differs p p' (front.filterMap point? ++ first) (last ++ back.filterMap point?)
      (front ++ pieces ++ back) (front ++ pieces' ++ back) := by
  refine ⟨?_, ?_, fun g => ?_⟩
  · simp [h.points]
  · simp [h.points']
  · obtain ⟨before, after, htext, htext'⟩ := h.text g
    refine ⟨front.flatMap (fill g) ++ before, after ++ back.flatMap (fill g), ?_, ?_⟩
    · simp [htext]
    · simp [htext']

end Piece.Differs

/-- The point with the annotations that are read from the given tokens. -/
def Point.reattach (s : Settings) (new : List Token) (p : Point) : Point :=
  { p with attachments := (Attachment.scan s p.pointer new).1 }

/-- At every place, the annotations can be exchanged for any others. What is read again has
these in its pieces, and is otherwise the same. -/
def Exchangeable {α : Type} (s : Settings) (tokens : α → List Token) (pieces : α → List Piece)
    (rel : α → α → Prop) (placed : List (Place × Point)) (x : α) : Prop :=
  ∀ first place p last, placed = first ++ (place, p) :: last →
    ∃ put : List Token → α,
      place.Holds (tokens x) (p.attachments.flatMap Attachment.tokens) (fun new => tokens (put new)) ∧
      ∀ new, new ≠ [] → (Form.readAll new).2 = [] → rel x (put new) ∧
        Piece.Differs p (p.reattach s new) (first.map Prod.snd) (last.map Prod.snd) (pieces x)
          (pieces (put new))

/-! ## Annotations in front -/

section Front

variable (s : Settings) (pointer : Text) (tokens : List Token)

theorem holds_atStart {p : Point} (h : p.attachments = (Attachment.scan s pointer tokens).1) :
    p.atStart.1.Holds tokens (p.attachments.flatMap Attachment.tokens) fun new =>
      new ++ (Attachment.scan s pointer tokens).2 := by
  have hholds := Place.Holds.here (p.attachments.flatMap Attachment.tokens)
    (Attachment.scan s pointer tokens).2
  rwa [h, Attachment.scan_tokens, ← h] at hholds

theorem flatMap_readAll {new : List Token} (hnew : (Form.readAll new).2 = []) :
    (Form.readAll new).1.flatMap Form.tokens = new := by
  have happend := Form.readAll_append new
  rwa [hnew, List.append_nil] at happend

/-- Other annotations in front of the same tokens are read as they are. -/
theorem Attachment.scan_front {new : List Token} (hnew : (Form.readAll new).2 = []) :
    scan s pointer (new ++ (scan s pointer tokens).2) =
      ((scan s pointer new).1, (scan s pointer tokens).2) := by
  have hread := Form.readAll_of_proper (Form.readAll_spec new).1 (Form.readAll_spec tokens).2
  rw [flatMap_readAll hnew] at hread
  rw [scan, scan, hread, scan]

/-- The same annotations are read in front of what is none. -/
theorem Attachment.scan_behind {rest' : List Token} (h : Form.read rest' = none) :
    scan s pointer ((scan s pointer tokens).1.flatMap Attachment.tokens ++ rest') =
      ((scan s pointer tokens).1, rest') := by
  have hread := Form.readAll_of_proper (Form.readAll_spec tokens).1 h
  simp only [scan, flatMap_tokens_ofForms, hread]

theorem Chunk.exchanged_front {new : List Token} (hne : new ≠ [])
    (hnew : (Form.readAll new).2 = []) :
    Exchanged tokens (new ++ (Attachment.scan s pointer tokens).2) := by
  have hforms : (Form.readAll new).1 ≠ [] := by
    intro hnil
    have happend := flatMap_readAll hnew
    rw [hnil] at happend
    exact hne happend.symm
  have hexchanged := Exchanged.front (Form.readAll_spec tokens).1 (Form.readAll_spec new).1 hforms
    (Form.readAll tokens).2
  rwa [Form.readAll_append, flatMap_readAll hnew] at hexchanged

end Front

/-! ## Members -/

namespace Members

variable (s : Settings)

/-- The member that a chunk is. -/
def memberOf (site : Site) (name : List Token → Text) (pointer : Text) (chunk : List Token) :
    Member :=
  let (attachments, body) := Attachment.scan s pointer chunk
  ⟨⟨site, name body, pointer, attachments⟩, body⟩

theorem exchangeable_memberOf (site : Site) (name : List Token → Text) (pointer : Text)
    (chunk : List Token) :
    Exchangeable s id (fun chunk => (memberOf s site name pointer chunk).pieces) Chunk.Exchanged
      (memberOf s site name pointer chunk).placed chunk := by
  intro first place p last hplaced
  rcases List.cons_eq_append_iff.1 hplaced with ⟨rfl, hown⟩ | ⟨_, -, hmore⟩
  · obtain ⟨hp, rfl⟩ := List.cons.inj hown
    obtain ⟨rfl, rfl⟩ := Prod.mk.inj hp
    refine ⟨_, holds_atStart s pointer chunk rfl, fun new hne hnew =>
      ⟨Chunk.exchanged_front s pointer chunk hne hnew, ?_⟩⟩
    simp only [memberOf, Attachment.scan_front s pointer chunk hnew]
    exact .slot _ _ rfl
  · simp at hmore

/-- A group in the place of another. -/
def Alike (g g' : Token) : Prop :=
  g.face = g'.face ∧ g'.leading = g.leading

theorem Alike.sideBySide {g g' : Token} (h : Alike g g') (before after : List Token) :
    SideBySide (before ++ g :: after) (before ++ g' :: after) :=
  (SideBySide.refl before).append ((SideBySide.same h.1 h.2).append (.refl after))

theorem length_mapIdx {α : Type} {of : α → List Token} {read : Nat → List Token → α}
    (h : ∀ index chunk, (of (read index chunk)).length = chunk.length)
    (chunks : List (List Token)) :
    ((chunks.mapIdx read).flatMap of).length = chunks.flatten.length := by
  induction chunks generalizing read with
  | nil => rfl
  | cons chunk chunks ih =>
    rw [List.mapIdx_cons, List.flatMap_cons, List.flatten_cons, List.length_append,
      List.length_append, h, ih fun index chunk => h (index + 1) chunk]

/-- The annotations of members can be exchanged if those in one chunk can be. -/
theorem exchangeable_ofChunks {α : Type} {places : α → List (Place × Point)}
    {of : α → List Token} {pieces : α → List Piece} {read : Nat → Text → List Token → α}
    {span : List Token → List Token × List Token} {split : List Token → List (List Token)}
    (hdivides : Chunk.Divides span split)
    (hpoints : ∀ x, (places x).map Prod.snd = (pieces x).filterMap Piece.point?)
    (hlength : ∀ index pointer chunk, (of (read index pointer chunk)).length = chunk.length)
    (hread : ∀ index pointer chunk, Exchangeable s id (fun chunk => pieces (read index pointer chunk))
      Chunk.Exchanged (places (read index pointer chunk)) chunk)
    {g : Token} {d : Delimiter} (hg : g.isGroup d = true) (pointer name : Text) :
    Exchangeable s (fun g => [g])
      (fun g => (ofChunks g d pointer name (split g.children) read).pieces pieces)
      Alike ((ofChunks g d pointer name (split g.children) read).placed places of) g := by
  intro first place p last hplaced
  obtain ⟨leading, pos, children, closeLeading, rfl⟩ := Token.isGroup_iff.1 hg
  obtain ⟨_, _, _, hfrom, rfl, hfirst, hlast⟩ := exists_of_mapPlaced hplaced
  obtain ⟨before, x, after, first', place', last', hmembers, hx, rfl, hbefore, hafter⟩ :=
    exists_of_placedFrom hfrom
  -- the member is read from one of the chunks
  obtain ⟨chunks, rest, hsplit, hchunks, hrest⟩ := List.mapIdx_eq_append_iff.1 hmembers
  obtain ⟨chunk, chunks', rfl, rfl, hchunks'⟩ := List.mapIdx_eq_cons_iff.1 hrest
  obtain ⟨put, hholds, hput⟩ := hread _ _ chunk first' place' p last' hx
  simp only [Token.children] at hsplit
  have hflatten : chunks.flatten ++ chunk ++ chunks'.flatten = children := by
    have hchildren := hdivides.inStep.flatten children
    rw [hsplit] at hchildren
    simpa using hchildren
  refine ⟨fun new => .group leading pos d (chunks.flatten ++ put new ++ chunks'.flatten)
    closeLeading, ?_, fun new hne hnew => ⟨⟨rfl, rfl⟩, ?_⟩⟩
  · have hgroup := (hholds.frame chunks.flatten chunks'.flatten).inside leading pos d closeLeading
    simp only [id, hflatten] at hgroup
    rw [← hchunks, Nat.zero_add, length_mapIdx fun index chunk => hlength index _ chunk]
    exact hgroup
  · obtain ⟨hexchanged, hdiffers⟩ := hput new hne hnew
    have hagain := hdivides.split_exchanged hexchanged hsplit
    have hmap : ∀ xs : List α, (xs.flatMap places).map Prod.snd =
        (xs.flatMap pieces).filterMap Piece.point? := fun xs => by
      simp only [List.map_flatMap, List.filterMap_flatMap, hpoints]
    have hframe := hdiffers.frame (.fixed (leading ++ [d.opening]) :: before.flatMap pieces)
      (after.flatMap pieces ++ [.fixed (closeLeading ++ [d.closing])])
    rw [hfirst, hlast, hbefore, hafter, List.map_append, List.map_append, hmap, hmap]
    simp only [Members.pieces, ofChunks, Token.children, Token.leading, Token.closeLeading, hsplit,
      hagain, List.mapIdx_append, List.mapIdx_cons, hchunks, hchunks', List.flatMap_append,
      List.flatMap_cons]
    simpa using hframe

theorem exchangeable_fields {g : Token} {d : Delimiter} (hg : g.isGroup d = true)
    (pointer : Text) :
    Exchangeable s (fun g => [g]) (fun g => (fields s pointer g d).pieces Member.pieces) Alike
      ((fields s pointer g d).placed Member.placed (Member.fill Attachment.tokens)) g :=
  exchangeable_ofChunks s Chunk.divides_fields (fun _ => rfl)
    (fun _ pointer chunk => congrArg List.length (Attachment.scan_tokens s pointer chunk))
    (fun index pointer chunk => exchangeable_memberOf s .field
      (fun body => if d = .brace then fieldName body else Text.decimal index) pointer chunk)
    hg pointer _

theorem exchangeable_traitMembers {g : Token} (hg : g.isGroup .brace = true) (pointer : Text) :
    Exchangeable s (fun g => [g]) (fun g => (traitMembers s pointer g).pieces Member.pieces) Alike
      ((traitMembers s pointer g).placed Member.placed (Member.fill Attachment.tokens)) g :=
  exchangeable_ofChunks s Chunk.divides_members (fun _ => rfl)
    (fun _ pointer chunk => congrArg List.length (Attachment.scan_tokens s pointer chunk))
    (fun _ pointer chunk => exchangeable_memberOf s .member memberName pointer chunk) hg pointer _

theorem variantOf_front (pointer : Text) (chunk : List Token) {new : List Token}
    (hnew : (Form.readAll new).2 = []) :
    variantOf s pointer (new ++ (Attachment.scan s pointer chunk).2) =
      { variantOf s pointer chunk with
        point := (variantOf s pointer chunk).point.reattach s new } := by
  simp only [variantOf, Attachment.scan_front s pointer chunk hnew]
  rfl

/-- The head of a variant ends at its fields, whatever is inside. -/
theorem splitVariant_alike {head tail : List Token} {g g' : Token} {name : Text}
    (h : splitVariant (head ++ g :: tail) = (name, head, g :: tail)) (halike : Alike g g') :
    splitVariant (head ++ g' :: tail) = (name, head, g' :: tail) := by
  have hcut := @SideBySide.cut (fun tokens => (splitVariant tokens).2) splitVariant_cuts _ _ _ _
    (.refl head) (halike.sideBySide [] tail) (congrArg Prod.snd h)
  obtain ⟨cells, hs, hold, hnew⟩ := (halike.sideBySide head tail).exists_sound
  have hname : (splitVariant (head ++ g' :: tail)).1 = name := by
    rw [splitVariant_name, ← hnew, ← fieldName_cells hs, hold, ← splitVariant_name, h]
  exact Prod.ext hname hcut

/-- A variant without fields, or with fields in a group. -/
theorem variantOf_cases (pointer : Text) (chunk : List Token) :
    (variantOf s pointer chunk).fields = none ∨
      ∃ name head g tail d, (d = .brace ∨ d = .paren) ∧ g.isGroup d = true ∧
        splitVariant (Attachment.scan s pointer chunk).2 = (name, head, g :: tail) ∧
        variantOf s pointer chunk =
          ⟨⟨.variant, name, pointer, (Attachment.scan s pointer chunk).1⟩, head,
            some (fields s pointer g d), tail⟩ := by
  obtain ⟨name, head, rest, hsplit⟩ : ∃ name head rest,
      splitVariant (Attachment.scan s pointer chunk).2 = (name, head, rest) := ⟨_, _, _, rfl⟩
  by_cases hrest : rest.head?.any holdsFields = true
  · obtain ⟨g, hg, hholds⟩ := (Option.any_eq_true _ _).1 hrest
    obtain ⟨tail, rfl⟩ := List.head?_eq_some_iff.1 hg
    obtain ⟨d, hd, hg⟩ := exists_of_holdsFields hholds
    refine .inr ⟨name, head, g, tail, d, hd, hg, hsplit, ?_⟩
    simp only [variantOf, hsplit, variantFields_of_group hd hg]
  · left
    simp only [variantOf, hsplit, variantFields_of_none (Bool.eq_false_iff.2 hrest)]

/-- A variant with other tokens inside the group of its fields. -/
theorem variantOf_alike {pointer name : Text} {chunk head tail : List Token} {g g' : Token}
    {d : Delimiter} (hd : d = .brace ∨ d = .paren) (hg : g.isGroup d = true)
    (halike : Alike g g')
    (h : splitVariant (Attachment.scan s pointer chunk).2 = (name, head, g :: tail)) :
    variantOf s pointer ((Attachment.scan s pointer chunk).1.flatMap Attachment.tokens ++ head ++
        [g'] ++ tail) =
      ⟨⟨.variant, name, pointer, (Attachment.scan s pointer chunk).1⟩, head,
        some (fields s pointer g' d), tail⟩ := by
  have hbody := splitVariant_append (Attachment.scan s pointer chunk).2
  rw [h] at hbody
  have hnone : Form.read (head ++ g' :: tail) = none := by
    refine (halike.sideBySide head tail).read_eq_none ?_
    rw [hbody]
    exact (Form.readAll_spec chunk).2
  rw [← hbody] at h
  have hg' : g'.isGroup d = true := by rw [← Token.isGroup_face d halike.1, hg]
  rw [List.append_assoc, List.append_assoc, List.singleton_append]
  simp only [variantOf, Attachment.scan_behind s pointer chunk hnone, splitVariant_alike h halike,
    variantFields_of_group hd hg']

/-- The annotations of a variant and of its fields can be exchanged. -/
theorem exchangeable_variantOf (pointer : Text) (chunk : List Token) :
    Exchangeable s id (fun chunk => (variantOf s pointer chunk).pieces) Chunk.Exchanged
      (variantOf s pointer chunk).placed chunk := by
  intro first place p last hplaced
  rcases List.cons_eq_append_iff.1 hplaced with ⟨rfl, hown⟩ | ⟨first', rfl, hmore⟩
  · have hpoints := (variantOf s pointer chunk).snd_placed
    rw [hplaced, ← Variant.filterMap_pieces] at hpoints
    obtain ⟨hp, rfl⟩ := List.cons.inj hown
    obtain ⟨rfl, rfl⟩ := Prod.mk.inj hp
    refine ⟨_, holds_atStart s pointer chunk rfl, fun new hne hnew =>
      ⟨Chunk.exchanged_front s pointer chunk hne hnew, ?_⟩⟩
    simp only [variantOf_front s pointer chunk hnew]
    exact .slot _ _ (List.cons.inj hpoints).2.symm
  · obtain ⟨first'', place', last', hfields, rfl, hfirst, hlast⟩ := exists_of_mapPlaced hmore
    rcases variantOf_cases s pointer chunk with hnone | ⟨name, head, g, tail, d, hd, hg, hsplit, hv⟩
    · rw [hnone] at hfields
      simp at hfields
    · rw [hv] at hfields
      simp only [hv]
      obtain ⟨put, hholds, hput⟩ := exchangeable_fields s hg pointer _ _ _ _ hfields
      have hchunk : (Attachment.scan s pointer chunk).1.flatMap Attachment.tokens ++ head ++ [g] ++
          tail = chunk := by
        have hbody := splitVariant_append (Attachment.scan s pointer chunk).2
        rw [hsplit] at hbody
        have hscan := Attachment.scan_tokens s pointer chunk
        rw [← hbody] at hscan
        simpa using hscan
      refine ⟨fun new => (Attachment.scan s pointer chunk).1.flatMap Attachment.tokens ++ head ++
        [put new] ++ tail, ?_, fun new hne hnew => ?_⟩
      · have hframe := hholds.frame
          ((Attachment.scan s pointer chunk).1.flatMap Attachment.tokens ++ head) tail
        rwa [hchunk] at hframe
      · obtain ⟨halike, hdiffers⟩ := hput new hne hnew
        constructor
        · refine .inside ((congrArg (List.map Token.face) hchunk).symm.trans ?_)
          simp [halike.1]
        · have hframe := hdiffers.frame [.slot ⟨.variant, name, pointer,
            (Attachment.scan s pointer chunk).1⟩, .ofTokens head] [.ofTokens tail]
          simp only [variantOf_alike s hd hg halike hsplit]
          rw [List.map_cons, hfirst, hlast]
          simpa [Variant.pieces, Point.atStart] using hframe

theorem exchangeable_variants {g : Token} (hg : g.isGroup .brace = true) (pointer : Text) :
    Exchangeable s (fun g => [g]) (fun g => (variants s pointer g).pieces Variant.pieces) Alike
      ((variants s pointer g).placed Variant.placed (Variant.fill Attachment.tokens)) g := by
  simp only [variants_eq]
  refine exchangeable_ofChunks s Chunk.divides_fields (fun v => ?_) (fun _ pointer chunk => ?_)
    (fun _ pointer chunk => exchangeable_variantOf s pointer chunk) hg pointer _
  · rw [Variant.snd_placed, Variant.filterMap_pieces]
  · have hforget := congrArg List.length (forgetAll_fill_variantOf s pointer chunk)
    simpa [Token.forgetAll_eq_map] using hforget

end Members

/-! ## Declarations -/

theorem Reading.exchangeable (s : Settings) (reading : Reading) {g : Token}
    (hg : g.isGroup reading.delimiter = true) (pointer : Text) :
    Exchangeable s (fun g => [g]) (fun g => (reading.read s pointer g).pieces) Members.Alike
      (reading.read s pointer g).placed g := by
  cases reading with
  | fields d => exact Members.exchangeable_fields s hg pointer
  | variants => exact Members.exchangeable_variants s hg pointer
  | traitMembers => exact Members.exchangeable_traitMembers s hg pointer

namespace Shape

/-- A declaration with other tokens inside the group of its members. -/
theorem take_alike {s : Settings} {pointer : Text} {kind : Kind} {rest : List Token} {g g' : Token}
    {shape : Shape} {r : Roster} (hroster : shape.roster = some r)
    (h : take s pointer kind (shape.before ++ g :: (shape.after ++ rest)) = .ok (shape, rest))
    (hface : g.face = g'.face) :
    ∃ (reading : Reading) (shape' : Shape), g.isGroup reading.delimiter = true ∧
      r = reading.read s pointer g ∧
      take s pointer kind (shape.before ++ g' :: (shape.after ++ rest)) = .ok (shape', rest) ∧
      shape'.kind = shape.kind ∧ shape'.name = shape.name ∧ shape'.before = shape.before ∧
      shape'.roster = some (reading.read s pointer g') ∧ shape'.after = shape.after := by
  have hs : ∀ c ∈ Cell.refl shape.before ++ .same g g' :: Cell.refl shape.after ++ Cell.refl rest,
      c.Sound := by
    intro c hc
    simp only [List.mem_append, List.mem_cons] at hc
    rcases hc with (hc | rfl | hc) | hc
    · exact Cell.sound_refl _ c hc
    · exact hface
    · exact Cell.sound_refl _ c hc
    · exact Cell.sound_refl _ c hc
  obtain ⟨shape', htake, htwin⟩ := @take_cells s pointer kind _ _ shape hs
    (by simpa [Cell.old] using h) pointer
  generalize hown : Cell.refl shape.before ++ .same g g' :: Cell.refl shape.after = own at htwin
  cases htwin with
  | solid _ hnone _ =>
    rw [hroster] at hnone
    cases hnone
  | listed reading hlikens hgroup hshape hshape' hafter hafter' =>
    obtain ⟨rfl, hmore⟩ := Cell.append_inj hown ((Cell.olds_refl _).trans hlikens.before)
    obtain ⟨hcell, rfl⟩ := List.cons.inj hmore
    obtain ⟨rfl, rfl⟩ := Cell.same.inj hcell
    refine ⟨reading, shape', hgroup, Option.some.inj (hroster.symm.trans hshape), ?_, hlikens.kind,
      hlikens.name (Cell.steady_refl _), ?_, hshape', ?_⟩
    · simpa [Cell.new] using htake
    · rw [hlikens.before', Cell.news_refl]
    · rw [hafter', Cell.news_refl]

/-- Declarations that differ in their members only. -/
theorem differs {shape shape' : Shape} {r r' : Roster} {p p' : Point} {first last : List Point}
    (hroster : shape.roster = some r) (hroster' : shape'.roster = some r')
    (hbefore : shape'.before = shape.before) (hafter : shape'.after = shape.after)
    (h : Piece.Differs p p' first last r.pieces r'.pieces) :
    Piece.Differs p p' first last shape.pieces shape'.pieces := by
  refine ⟨?_, ?_, fun g => ?_⟩
  · rw [filterMap_pieces, points, hroster, ← h.points, Roster.filterMap_pieces]
    rfl
  · rw [filterMap_pieces, points, hroster', ← h.points', Roster.filterMap_pieces]
    rfl
  · obtain ⟨before, after, htext, htext'⟩ := h.text g
    refine ⟨Token.renderAll shape.before ++ before, after ++ Token.renderAll shape.after, ?_, ?_⟩
    · rw [pieces_fill, hroster, Option.elim_some, htext]
      simp
    · rw [pieces_fill, hroster', Option.elim_some, htext', hbefore, hafter]
      simp

/-- The annotations of a member are exchanged. -/
theorem exists_exchange {s : Settings} {pointer : Text} {kind : Kind} {tokens rest : List Token}
    {shape : Shape} (h : take s pointer kind tokens = .ok (shape, rest))
    {first last : List (Place × Point)} {place : Place} {p : Point}
    (hplaced : shape.roster.elim [] Roster.placed = first ++ (place, p) :: last) :
    ∃ (g : Token) (put : List Token → Token), tokens = shape.before ++ g :: (shape.after ++ rest) ∧
      place.Holds [g] (p.attachments.flatMap Attachment.tokens) (fun new => [put new]) ∧
      ∀ new, new ≠ [] → (Form.readAll new).2 = [] → Members.Alike g (put new) ∧
        ∃ shape', take s pointer kind (shape.before ++ put new :: (shape.after ++ rest)) =
            .ok (shape', rest) ∧ shape'.kind = shape.kind ∧ shape'.name = shape.name ∧
          Piece.Differs p (p.reattach s new) (first.map Prod.snd) (last.map Prod.snd) shape.pieces
            shape'.pieces := by
  rcases take_tokens h with ⟨hnone, -, -⟩ | ⟨reading, g, hgroup, hroster, rfl⟩
  · rw [hnone] at hplaced
    simp at hplaced
  rw [hroster, Option.elim_some] at hplaced
  obtain ⟨put, hholds, hput⟩ := reading.exchangeable s hgroup pointer _ _ _ _ hplaced
  refine ⟨g, put, rfl, hholds, fun new hne hnew => ⟨(hput new hne hnew).1, ?_⟩⟩
  obtain ⟨reading', shape', hgroup', hread, htake, hkind, hname, hbefore, hroster', hafter⟩ :=
    take_alike hroster h (hput new hne hnew).1.1
  -- both ways to read the group put the same tokens into the same place
  rw [hread] at hplaced
  obtain ⟨put', hholds', hput'⟩ := reading'.exchangeable s hgroup' pointer _ _ _ _ hplaced
  have hsame : put' new = put new :=
    List.singleton_inj.1 ((hholds'.exchange new).symm.trans (hholds.exchange new))
  have hdiffers := (hput' new hne hnew).2
  rw [hsame] at hdiffers
  exact ⟨shape', htake, hkind, hname,
    differs (hroster.trans (congrArg some hread)) hroster' hbefore hafter hdiffers⟩

end Shape

/-- An item with other tokens inside a group of its body. -/
theorem Item.parse_alike {s : Settings} {pointer : Text} {tokens before after rest : List Token}
    {g g' : Token} {kind : Kind} {shape : Shape} (halike : Members.Alike g g')
    (hbody : (spanVisibility (Attachment.scan s pointer tokens).2).2 = before ++ g :: after)
    (hselect : Kind.select (before ++ g :: after) = some kind)
    (htake : Shape.take s pointer kind (before ++ g' :: after) = .ok (shape, rest)) :
    parse s pointer ((Attachment.scan s pointer tokens).1.flatMap Attachment.tokens ++
        (spanVisibility (Attachment.scan s pointer tokens).2).1 ++ before ++ [g'] ++ after) =
      (.declared ⟨pointer, (Attachment.scan s pointer tokens).1,
        (spanVisibility (Attachment.scan s pointer tokens).2).1, shape⟩, rest) := by
  have hspan := spanVisibility_append (Attachment.scan s pointer tokens).2
  have hside := halike.sideBySide before after
  rw [← hbody] at hside
  have hcut := SideBySide.cut spanVisibility_cuts (.refl _) hside (by rw [hspan])
  have hbehind := (SideBySide.refl (spanVisibility (Attachment.scan s pointer tokens).2).1).append
    hside
  rw [hspan] at hbehind
  have hscan := Attachment.scan_behind s pointer tokens
    (hbehind.read_eq_none (Form.readAll_spec tokens).2)
  simp only [List.append_assoc, List.singleton_append]
  refine parse_of_take hscan hcut ?_ htake
  rw [hside.select, hbody, hselect]

/-- A declaration is found again if the annotations of one point are exchanged. -/
theorem Item.exists_exchange {s : Settings} {pointer : Text} {tokens rest : List Token}
    {d : Declaration} (h : parse s pointer tokens = (.declared d, rest))
    {first last : List (Place × Point)} {place : Place} {p : Point}
    (hplaced : d.placed = first ++ (place, p) :: last) :
    ∃ put, place.Holds tokens (p.attachments.flatMap Attachment.tokens) put ∧
      ∀ new, new ≠ [] → (Form.readAll new).2 = [] →
        ∃ d', parse s pointer (put new) = (.declared d', rest) ∧ d'.shape.kind = d.shape.kind ∧
          Piece.Differs p (p.reattach s new) (first.map Prod.snd) (last.map Prod.snd) d.pieces
            d'.pieces := by
  have hpoints := d.snd_placed
  rw [hplaced] at hpoints
  rcases parse_cases s pointer tokens with ⟨-, _, -, hparse⟩ |
    ⟨kind, shape, rest', hselect, htake, hparse⟩
  · rw [h] at hparse
    cases hparse
  rw [h] at hparse
  cases hparse
  rcases List.cons_eq_append_iff.1 hplaced with ⟨rfl, hown⟩ | ⟨first', rfl, hmore⟩
  · -- the annotations of the declaration itself
    obtain ⟨hp, rfl⟩ := List.cons.inj hown
    obtain ⟨rfl, rfl⟩ := Prod.mk.inj hp
    refine ⟨_, holds_atStart s pointer tokens rfl, fun new hne hnew => ⟨_,
      parse_of_take (Attachment.scan_front s pointer tokens hnew) rfl hselect htake, rfl, ?_⟩⟩
    exact .slot _ _ (List.cons.inj hpoints).2.symm
  · -- the annotations of a member
    obtain ⟨first'', place', last', hroster, rfl, hfirst, hlast⟩ := exists_of_mapPlaced hmore
    obtain ⟨g, put, hbody, hholds, hput⟩ := Shape.exists_exchange htake hroster
    refine ⟨fun new => (Attachment.scan s pointer tokens).1.flatMap Attachment.tokens ++
      (spanVisibility (Attachment.scan s pointer tokens).2).1 ++ shape.before ++ [put new] ++
      (shape.after ++ rest), ?_, fun new hne hnew => ?_⟩
    · have hframe := hholds.frame ((Attachment.scan s pointer tokens).1.flatMap Attachment.tokens ++
        (spanVisibility (Attachment.scan s pointer tokens).2).1 ++ shape.before) (shape.after ++ rest)
      have htokens : (Attachment.scan s pointer tokens).1.flatMap Attachment.tokens ++
          (spanVisibility (Attachment.scan s pointer tokens).2).1 ++ shape.before ++ [g] ++
          (shape.after ++ rest) = tokens := by
        have hscan := Attachment.scan_tokens s pointer tokens
        rw [← spanVisibility_append (Attachment.scan s pointer tokens).2, hbody] at hscan
        simpa using hscan
      rwa [htokens] at hframe
    · obtain ⟨halike, shape', htake', hkind, hname, hdiffers⟩ := hput new hne hnew
      refine ⟨_, parse_alike halike hbody (hbody ▸ hselect) htake', hkind, ?_⟩
      have hframe := hdiffers.frame [.slot ⟨.declaration shape.kind, shape.name, pointer,
        (Attachment.scan s pointer tokens).1⟩,
        .ofTokens (spanVisibility (Attachment.scan s pointer tokens).2).1] []
      rw [List.map_cons, hfirst, hlast]
      simpa [Declaration.pieces, Declaration.point, Point.atStart, hkind, hname] using hframe

/-- The annotations of one attachment point are exchanged for any others. -/
theorem Item.parse_exchange {s : Settings} {pointer : Text} {tokens rest : List Token}
    {d : Declaration} (h : parse s pointer tokens = (.declared d, rest)) {k : Nat} {place : Place}
    {p : Point} (hplaced : d.placed[k]? = some (place, p)) {new : List Token} (hne : new ≠ [])
    (hnew : (Form.readAll new).2 = []) :
    place.segment tokens = p.attachments.flatMap Attachment.tokens ∧
      ∃ d', parse s pointer (place.exchange new tokens) = (.declared d', rest) ∧
        d'.shape.kind = d.shape.kind ∧
        (Item.declared d').points = (Item.declared d).points.set k (p.reattach s new) ∧
        ∃ before after,
          (Item.declared d).lower s = before ++ Attachment.lowerAll s p.attachments ++ after ∧
          (Item.declared d').lower s =
            before ++ Attachment.lowerAll s (Attachment.scan s p.pointer new).1 ++ after := by
  obtain ⟨hk, hget⟩ := List.getElem?_eq_some_iff.1 hplaced
  have hsplit : d.placed = d.placed.take k ++ (place, p) :: d.placed.drop (k + 1) := by
    rw [← hget, List.getElem_cons_drop, List.take_append_drop]
  obtain ⟨put, hholds, hput⟩ := exists_exchange h hsplit
  obtain ⟨d', hparse, hkind, hdiffers⟩ := hput new hne hnew
  refine ⟨hholds.segment, d', by rw [hholds.exchange, hparse], hkind, ?_, ?_⟩
  · have hlength : ((d.placed.take k).map Prod.snd).length = k := by
      rw [List.length_map, List.length_take, Nat.min_eq_left (Nat.le_of_lt hk)]
    show d'.pieces.filterMap Piece.point? = (d.pieces.filterMap Piece.point?).set k _
    rw [hdiffers.points, hdiffers.points', List.set_append_right _ _ (Nat.le_of_eq hlength), hlength,
      Nat.sub_self, List.set_cons_zero]
  · rw [lower_eq_fill, lower_eq_fill]
    exact hdiffers.text (Attachment.lower s)

/-- The annotation of a field of a variant is exchanged for three others, one of them faulty. -/
theorem Item.parse_exchange_field :
    ∃ stream stream' d rest p d',
      tokenize "pub enum E \x7b #[a] A(#[b] u8, V<T>), B \x7d fn" = .ok stream ∧
      tokenize "#[cfg_attrs] /// c\n#[cfg_attrs(d, e)]" = .ok stream' ∧
      parse {} [] stream.tokens = (.declared d, rest) ∧
      d.placed[2]? = some (⟨[3, 3], 0, 2⟩, p) ∧
      parse {} [] (Place.exchange ⟨[3, 3], 0, 2⟩ stream'.tokens stream.tokens) =
        (.declared d', rest) ∧
      (Item.declared d').points =
        (Item.declared d).points.set 2 (p.reattach {} stream'.tokens) := by
  obtain ⟨stream, htokenize, htest⟩ :=
    @exists_of_tokenize "pub enum E \x7b #[a] A(#[b] u8, V<T>), B \x7d fn"
      (fun stream => match (parse {} [] stream.tokens).1 with
        | .declared d => d.placed[2]?.any fun x => x.1 == ⟨[3, 3], 0, 2⟩
        | _ => false)
      (by decide +kernel)
  obtain ⟨stream', htokenize', hnew⟩ :=
    @exists_of_tokenize "#[cfg_attrs] /// c\n#[cfg_attrs(d, e)]"
      (fun stream => !stream.tokens.isEmpty && (Form.readAll stream.tokens).2.isEmpty)
      (by decide +kernel)
  split at htest
  · rename_i d hparse
    obtain ⟨⟨place, p⟩, hplaced, hplace⟩ := (Option.any_eq_true _ _).1 htest
    obtain rfl : place = ⟨[3, 3], 0, 2⟩ := beq_iff_eq.1 hplace
    rw [Bool.and_eq_true, Bool.not_eq_true', List.isEmpty_eq_false_iff, List.isEmpty_iff] at hnew
    have hparse : parse {} [] stream.tokens = (.declared d, (parse {} [] stream.tokens).2) :=
      Prod.ext hparse rfl
    obtain ⟨-, d', hparse', -, hpoints, -⟩ := parse_exchange hparse hplaced hnew.1 hnew.2
    exact ⟨stream, stream', d, _, p, d', htokenize, htokenize', hparse, hplaced, hparse', hpoints⟩
  · cases htest

end CondAttrs
