import CondAttrs.Proofs.Reading.Point
import Mathlib.Data.List.Forall2

/-!
# Reading what the annotations were exchanged in

The items of a file are filled with other annotations and the result is read again. The
second reading goes in step with the first: members are divided at the same places, the
same declarations are found, and what was passed through is passed through again. So the
attachment points are the same, and at each point stand the annotations that were put
there.

Only the head of a file may come out shorter. An inner annotation there may be exchanged
for an outer one, which then belongs to the first item behind it.

## Main definitions

* `Replaces`: annotations may be exchanged for the given forms.
* `Attachment.Renews`, `Point.Renews`, `Item.Renews`: what is read again in the place of
  an annotation, a point, an item.

## Main statements

* `Members.fields_again`, `Members.variants_again`, `Shape.take_again`, `Item.parse_again`:
  what is read again on each level.
* `Item.parseFrom_again`, `Item.head_again`: a file.
-/

namespace CondAttrs

/-! ## Forms and annotations -/

theorem exists_of_forall₂ {α β : Type} {rel : α → β → Prop} {l : List α} {l' : List β}
    (h : List.Forall₂ rel l l') {b : β} (hb : b ∈ l') : ∃ a ∈ l, rel a b := by
  induction h with
  | nil => cases hb
  | cons hab _ ih =>
    rcases List.mem_cons.1 hb with rfl | hb
    · exact ⟨_, List.mem_cons_self, hab⟩
    · obtain ⟨a, ha, hrel⟩ := ih hb
      exact ⟨a, List.mem_cons_of_mem _ ha, hrel⟩

/-- The second form is the first one at another position. -/
def Form.Recurs (f f' : Form) : Prop :=
  f'.Proper ∧ f'.forget = f.forget

theorem Form.exists_recurs {forms : List Form} (h : ∀ f ∈ forms, f.Proper) {tokens : List Token}
    (ht : Token.forgetAll tokens = Token.forgetAll (forms.flatMap Form.tokens)) :
    ∃ forms' : List Form, tokens = forms'.flatMap Form.tokens ∧
      List.Forall₂ Form.Recurs forms forms' := by
  induction forms generalizing tokens with
  | nil =>
    rw [List.flatMap_nil, Token.forgetAll_nil, Token.forgetAll_eq_nil] at ht
    exact ⟨[], ht, .nil⟩
  | cons f forms ih =>
    obtain ⟨hf, hforms⟩ := List.forall_mem_cons.1 h
    rw [List.flatMap_cons] at ht
    obtain ⟨own, more, rfl, hown, hmore⟩ := Token.exists_append_of_forgetAll ht
    obtain ⟨forms', rfl, hforms'⟩ := ih hforms hmore
    obtain ⟨g, hg, rfl, hforget⟩ := Form.exists_of_forgetAll hf hown
    exact ⟨g :: forms', by rw [List.flatMap_cons], .cons ⟨hg, hforget⟩ hforms'⟩

theorem Form.proper_of_recurs {forms forms' : List Form} (h : List.Forall₂ Form.Recurs forms forms') :
    ∀ f' ∈ forms', f'.Proper := by
  induction h with
  | nil => simp
  | cons hf _ ih => exact List.forall_mem_cons.2 ⟨hf.1, ih⟩

/-- Annotations may be exchanged for the given forms. -/
def Replaces (s : Settings) (put : Attachment → Form) : Prop :=
  ∀ a : Attachment, a.Scanned s → a.Exchanges (put a)

theorem Attachment.Scanned.proper {s : Settings} {a : Attachment} (h : a.Scanned s) :
    a.form.Proper := by
  obtain ⟨pointer, f, hproper, rfl⟩ := h
  rw [form_ofForm]
  exact hproper

/-- The second annotation is read from what the first was exchanged for. -/
def Attachment.Renews (s : Settings) (put : Attachment → Form) (a a' : Attachment) : Prop :=
  a'.Scanned s ∧ a'.form.forget = (put a).forget

theorem Attachment.renews_ofForms {s : Settings} {put : Attachment → Form}
    {attachments : List Attachment} {forms : List Form}
    (h : List.Forall₂ Form.Recurs (attachments.map put) forms) (pointer : Text) :
    List.Forall₂ (Renews s put) attachments (ofForms s pointer forms) := by
  rw [List.forall₂_map_left_iff, List.forall₂_iff_get] at h
  obtain ⟨hlength, hget⟩ := h
  rw [List.forall₂_iff_get]
  refine ⟨by rw [ofForms, List.length_mapIdx, hlength], fun index h₁ h₂ => ?_⟩
  obtain ⟨hproper, hforget⟩ := hget index h₁ (hlength ▸ h₁)
  simp only [ofForms, List.get_eq_getElem, List.getElem_mapIdx] at hforget ⊢
  exact ⟨⟨_, _, hproper, rfl⟩, by rw [form_ofForm]; exact hforget⟩

namespace Replaces

variable {s : Settings} {put : Attachment → Form} (hput : Replaces s put)

include hput

theorem sideBySide {a : Attachment} (ha : a.Scanned s) : SideBySide a.tokens (put a).tokens :=
  (hput a ha).sideBySide ha.proper

/-- What annotations are exchanged for are forms again. -/
theorem recurs {attachments : List Attachment} (hscanned : ∀ a ∈ attachments, a.Scanned s)
    {tokens : List Token}
    (h : Token.forgetAll tokens =
      Token.forgetAll (attachments.flatMap fun a => (put a).tokens)) :
    ∃ forms : List Form, tokens = forms.flatMap Form.tokens ∧
      List.Forall₂ Form.Recurs (attachments.map put) forms := by
  apply Form.exists_recurs
  · intro f hf
    obtain ⟨a, ha, rfl⟩ := List.mem_map.1 hf
    exact (hput a (hscanned a ha)).proper (hscanned a ha).proper
  · rw [h, List.flatMap_map]

end Replaces

/-- The second point is read in the place of the first. The two stand at the same place
below `base` and `base'`. -/
structure Point.Renews (s : Settings) (put : Attachment → Form) (base base' : Text)
    (p p' : Point) : Prop where
  site : p'.site = p.site
  name : p'.name = p.name
  pointer : ∃ path, p.pointer = base ++ path ∧ p'.pointer = base' ++ path
  attachments : List.Forall₂ (Attachment.Renews s put) p.attachments p'.attachments

theorem Point.Renews.of_entry {s : Settings} {put : Attachment → Form} {base base' name : Text}
    {index : Nat} {p p' : Point}
    (h : p.Renews s put (Pointer.entry base name index) (Pointer.entry base' name index) p') :
    p.Renews s put base base' p' := by
  obtain ⟨path, hp, hp'⟩ := h.pointer
  refine ⟨h.site, h.name, ⟨Pointer.ofSegments [name, Text.decimal index] ++ path, ?_, ?_⟩,
    h.attachments⟩
  · rw [hp, Pointer.entry, List.append_assoc]
  · rw [hp', Pointer.entry, List.append_assoc]

/-! ## Divisions -/

theorem SideBySide.ne_nil {old new : List Token} (h : SideBySide old new) (hold : old ≠ []) :
    new ≠ [] := by
  obtain ⟨cells, -, rfl, rfl⟩ := h
  obtain ⟨c, cells, rfl⟩ : ∃ c more, cells = c :: more :=
    List.exists_cons_of_ne_nil fun hnil => hold (by rw [hnil]; rfl)
  simp [c.new_ne_nil]

/-- The parts of a division that is made in step can be laid side by side. -/
theorem SideBySide.cuts {span : List Token → List Token × List Token}
    (hcuts : ∀ {cells : List Cell}, (∀ c ∈ cells, c.Sound) →
      Cuts cells (span (Cell.olds cells)) (span (Cell.news cells)))
    {old new : List Token} (h : SideBySide old new) :
    SideBySide (span old).1 (span new).1 ∧ SideBySide (span old).2 (span new).2 := by
  obtain ⟨cells, hs, rfl, rfl⟩ := h
  obtain ⟨own, rest, rfl, hold, hnew⟩ := hcuts fun c hc => (hs c hc).1
  rw [hold, hnew]
  exact ⟨⟨own, fun c hc => hs c (List.mem_append_left _ hc), rfl, rfl⟩,
    ⟨rest, fun c hc => hs c (List.mem_append_right _ hc), rfl, rfl⟩⟩

/-- A division that is made in step is made again at the same place. -/
theorem SideBySide.cut {span : List Token → List Token × List Token}
    (hcuts : ∀ {cells : List Cell}, (∀ c ∈ cells, c.Sound) →
      Cuts cells (span (Cell.olds cells)) (span (Cell.news cells)))
    {first first' second second' : List Token} (hfirst : SideBySide first first')
    (hsecond : SideBySide second second') (hspan : span (first ++ second) = (first, second)) :
    span (first' ++ second') = (first', second') := by
  obtain ⟨own, hown, rfl, rfl⟩ := hfirst.exists_sound
  obtain ⟨rest, hrest, rfl, rfl⟩ := hsecond.exists_sound
  have hsound : ∀ c ∈ own ++ rest, c.Sound := fun c hc =>
    (List.mem_append.1 hc).elim (hown c) (hrest c)
  obtain ⟨own', rest', hcells, hold, hnew⟩ := hcuts hsound
  rw [← Cell.olds_append, hold] at hspan
  obtain ⟨hown', -⟩ := Prod.mk.inj hspan
  obtain ⟨rfl, rfl⟩ := Cell.append_inj hcells hown'.symm
  rw [← Cell.news_append]
  exact hnew

/-- Chunks that are exchanged one by one can be laid side by side one by one. -/
theorem Cell.exists_chunks {chunks : List (List Token)} {of : Nat → List Token → List Token}
    {tokens' : List Token}
    (hside : ∀ index, ∀ chunk ∈ chunks, SideBySide chunk (of index chunk))
    (htokens : Token.forgetAll tokens' = Token.forgetAll (chunks.mapIdx of).flatten) :
    ∃ cells : List (List Cell), (∀ k ∈ cells, ∀ c ∈ k, c.Sound) ∧
      cells.map Cell.olds = chunks ∧ Cell.news cells.flatten = tokens' ∧
      (cells.map Cell.news).map Token.forgetAll = (chunks.mapIdx of).map Token.forgetAll := by
  induction chunks generalizing of tokens' with
  | nil =>
    rw [List.mapIdx_nil, List.flatten_nil, Token.forgetAll_nil, Token.forgetAll_eq_nil] at htokens
    exact ⟨[], by simp, rfl, by rw [htokens]; rfl, rfl⟩
  | cons chunk chunks ih =>
    rw [List.mapIdx_cons, List.flatten_cons] at htokens
    obtain ⟨own, more, rfl, hown, hmore⟩ := Token.exists_append_of_forgetAll htokens
    obtain ⟨cells, hs, holds, hnews, hall⟩ :=
      ih (fun index k hk => hside (index + 1) k (List.mem_cons_of_mem _ hk)) hmore
    obtain ⟨k, hk, rfl, rfl⟩ :=
      ((hside 0 chunk List.mem_cons_self).of_forgetAll rfl hown).exists_sound
    refine ⟨k :: cells, List.forall_mem_cons.2 ⟨hk, hs⟩, by rw [List.map_cons, holds],
      by rw [List.flatten_cons, Cell.news_append, hnews], ?_⟩
    rw [List.map_cons, List.map_cons, List.mapIdx_cons, List.map_cons, hown, hall]

/-- Members are divided again at the same places. -/
theorem Chunk.SplitsInStep.split_again {split : List Token → List (List Token)}
    (h : SplitsInStep split) {tokens tokens' : List Token} {of : Nat → List Token → List Token}
    (hside : ∀ index, ∀ chunk ∈ split tokens, SideBySide chunk (of index chunk))
    (htokens : Token.forgetAll tokens' = Token.forgetAll ((split tokens).mapIdx of).flatten) :
    (split tokens').map Token.forgetAll = ((split tokens).mapIdx of).map Token.forgetAll := by
  obtain ⟨cells, hs, holds, rfl, hall⟩ := Cell.exists_chunks hside htokens
  have hsplit : split (Cell.olds cells.flatten) = cells.map Cell.olds := by
    rw [Cell.olds_flatten, holds, h.flatten]
  rw [h.split_news hs hsplit, hall]

/-! ## Members -/

namespace Replaces

variable {s : Settings} {put : Attachment → Form} (hput : Replaces s put)

include hput

/-- Annotations that are exchanged in front of something. -/
theorem sideBySide_scan (pointer : Text) (tokens : List Token) :
    SideBySide tokens
      ((Attachment.scan s pointer tokens).1.flatMap (fun a => (put a).tokens) ++
        (Attachment.scan s pointer tokens).2) := by
  have hown := compatible_sideBySide.flatMap fun a ha =>
    hput.sideBySide (Attachment.scan_scanned s pointer tokens a ha)
  have hside := hown.append (.refl (Attachment.scan s pointer tokens).2)
  rwa [Attachment.scan_tokens] at hside

/-- Annotations that were exchanged are read again. -/
theorem scan_again {pointer : Text} {tokens first rest : List Token}
    (hfirst : Token.forgetAll first =
      Token.forgetAll ((Attachment.scan s pointer tokens).1.flatMap fun a => (put a).tokens))
    (hrest : SideBySide (Attachment.scan s pointer tokens).2 rest) (pointer' : Text) :
    (Attachment.scan s pointer' (first ++ rest)).2 = rest ∧
      List.Forall₂ (Attachment.Renews s put) (Attachment.scan s pointer tokens).1
        (Attachment.scan s pointer' (first ++ rest)).1 := by
  obtain ⟨forms, rfl, hforms⟩ := hput.recurs (Attachment.scan_scanned s pointer tokens) hfirst
  have hread := Form.readAll_of_proper (Form.proper_of_recurs hforms)
    (hrest.read_eq_none (Form.readAll_spec tokens).2)
  have hscan : Attachment.scan s pointer' (forms.flatMap Form.tokens ++ rest) =
      (Attachment.ofForms s pointer' forms, rest) := by
    rw [Attachment.scan, hread]
  rw [hscan]
  exact ⟨rfl, Attachment.renews_ofForms hforms pointer'⟩

end Replaces

namespace Members

variable {s : Settings} {put : Attachment → Form}

/-- Members that are read chunk by chunk are read again chunk by chunk. -/
theorem ofChunks_again {α : Type} {of : α → List Token} {rel : Text → Text → α → α → Prop}
    {split : List Token → List (List Token)} (hsplit : Chunk.SplitsInStep split)
    {read : Nat → Text → List Token → α}
    (hside : ∀ index pointer chunk, SideBySide chunk (of (read index pointer chunk)))
    (hread : ∀ {index pointer chunk pointer' chunk'},
      Token.forgetAll chunk' = Token.forgetAll (of (read index pointer chunk)) →
        rel pointer pointer' (read index pointer chunk) (read index pointer' chunk'))
    {g g' : Token} {d : Delimiter} {pointer pointer' name : Text}
    (hg : g'.forget = ((ofChunks g d pointer name (split g.children) read).fill of).forget) :
    List.Forall₂
      (fun x x' => ∃ index, rel (Pointer.entry pointer name index)
        (Pointer.entry pointer' name index) x x')
      (ofChunks g d pointer name (split g.children) read).members
      (ofChunks g' d pointer' name (split g'.children) read).members := by
  have hchildren : Token.forgetAll g'.children = Token.forgetAll
      ((split g.children).mapIdx fun index chunk =>
        of (read index (Pointer.entry pointer name index) chunk)).flatten := by
    rw [← Token.children_forget, hg, Token.children_forget]
    show Token.forgetAll ((List.mapIdx _ (split g.children)).flatMap of) = _
    rw [List.flatMap_def]
    congr 2
    apply List.ext_getElem <;> simp
  have hchunks := hsplit.split_again (fun index chunk _ => hside index _ chunk) hchildren
  have hlength : (split g'.children).length = (split g.children).length := by
    simpa using congrArg List.length hchunks
  rw [List.forall₂_iff_get]
  refine ⟨by simp [ofChunks, hlength], fun index h₁ h₂ => ⟨index, ?_⟩⟩
  simp only [ofChunks, List.get_eq_getElem, List.getElem_mapIdx]
  apply hread
  have hindex : index < (split g.children).length := by simpa [ofChunks] using h₁
  have hchunk := congrArg (·[index]?) hchunks
  simpa [hindex, hlength] using hchunk

/-- A member whose annotations were exchanged is read again. -/
theorem member_again (hput : Replaces s put) {pointer pointer' : Text} {chunk chunk' : List Token}
    {site : Site} {name : List Token → Text}
    (hname : ∀ {cells : List Cell}, (∀ c ∈ cells, c.Sound) →
      name (Cell.olds cells) = name (Cell.news cells))
    (h : Token.forgetAll chunk' = Token.forgetAll
      ((Attachment.scan s pointer chunk).1.flatMap (fun a => (put a).tokens) ++
        (Attachment.scan s pointer chunk).2)) :
    Point.Renews s put pointer pointer'
      ⟨site, name (Attachment.scan s pointer chunk).2, pointer, (Attachment.scan s pointer chunk).1⟩
      ⟨site, name (Attachment.scan s pointer' chunk').2, pointer',
        (Attachment.scan s pointer' chunk').1⟩ := by
  obtain ⟨first, rest, rfl, hfirst, hrest⟩ := Token.exists_append_of_forgetAll h
  have hside := (SideBySide.refl _).of_forgetAll rfl hrest
  obtain ⟨hbehind, hscan⟩ := hput.scan_again hfirst hside pointer'
  refine ⟨rfl, ?_, ⟨[], by simp, by simp⟩, hscan⟩
  obtain ⟨cells, hs, hold, hnew⟩ := hside.exists_sound
  rw [hbehind, ← hold, ← hnew, hname hs]

/-- The fields of a group are found again. -/
theorem fields_again (hput : Replaces s put) {g g' : Token} {d : Delimiter}
    {pointer pointer' : Text}
    (hg : g'.forget =
      ((fields s pointer g d).fill (Member.fill fun a => (put a).tokens)).forget) :
    List.Forall₂ (Point.Renews s put pointer pointer')
      ((fields s pointer g d).members.map Member.point)
      ((fields s pointer' g' d).members.map Member.point) := by
  rw [List.forall₂_map_left_iff, List.forall₂_map_right_iff]
  have hmembers := @ofChunks_again Member (Member.fill fun a => (put a).tokens)
    (fun base base' m m' => m.point.Renews s put base base' m'.point) _ Chunk.splitFields_inStep _
    ?_ ?_ g g' d pointer pointer' _ hg
  · exact hmembers.imp fun m m' ⟨index, h⟩ => h.of_entry
  · exact fun index pointer chunk => hput.sideBySide_scan pointer chunk
  · intro index pointer chunk pointer' chunk' hforget
    exact @member_again s put hput pointer pointer' chunk chunk' .field
      (fun body => if d = .brace then fieldName body else Text.decimal index)
      (fun hs => by rw [fieldName_cells hs]) hforget

theorem traitMembers_again (hput : Replaces s put) {g g' : Token} {pointer pointer' : Text}
    (hg : g'.forget =
      ((traitMembers s pointer g).fill (Member.fill fun a => (put a).tokens)).forget) :
    List.Forall₂ (Point.Renews s put pointer pointer')
      ((traitMembers s pointer g).members.map Member.point)
      ((traitMembers s pointer' g').members.map Member.point) := by
  rw [List.forall₂_map_left_iff, List.forall₂_map_right_iff]
  have hmembers := @ofChunks_again Member (Member.fill fun a => (put a).tokens)
    (fun base base' m m' => m.point.Renews s put base base' m'.point) _ Chunk.splitMembers_inStep _
    ?_ ?_ g g' _ pointer pointer' _ hg
  · exact hmembers.imp fun m m' ⟨index, h⟩ => h.of_entry
  · exact fun index pointer chunk => hput.sideBySide_scan pointer chunk
  · intro index pointer chunk pointer' chunk' hforget
    exact member_again hput memberName_cells hforget

/-- The head of a variant is the same cells on both sides. -/
theorem splitVariant_cuts {cells : List Cell} (hs : ∀ c ∈ cells, c.Sound) :
    Cuts cells (splitVariant (Cell.olds cells)).2 (splitVariant (Cell.news cells)).2 := by
  obtain ⟨own, rest, rfl, hold, hnew⟩ := spanVisibility_cuts hs
  unfold splitVariant
  rw [hold, hnew]
  cases rest with
  | nil => exact ⟨own, [], rfl, rfl, rfl⟩
  | cons c rest =>
    have hc := hs c (by simp)
    cases c with
    | same t t' =>
      simp only [Cell.olds_cons, Cell.news_cons, Cell.old, Cell.new, List.singleton_append,
        ← Token.ident?_face hc]
      cases t.ident? with
      | none => exact ⟨own, .same t t' :: rest, rfl, rfl, rfl⟩
      | some name =>
        exact ⟨own ++ [.same t t'], rest, by simp, by simp [Cell.old], by simp [Cell.new]⟩
    | swap f f' =>
      obtain ⟨hash, more, b, ht, hh, -⟩ := hc.1.tokens_eq
      obtain ⟨hash', more', b', ht', hh', -⟩ := hc.2.tokens_eq
      have hident : ∀ {t : Token}, t.isPunct '#' = true → t.ident? = none := by
        intro t h
        obtain ⟨_, _, _, rfl⟩ := Token.isPunct_iff.1 h
        rfl
      refine ⟨own, .swap f f' :: rest, rfl, ?_, ?_⟩
      · simp only [Cell.olds_cons, Cell.old, ht, List.cons_append, hident hh]
      · simp only [Cell.news_cons, Cell.new, ht', List.cons_append, hident hh']

theorem isGroup_fill {α : Type} (of : α → List Token) (m : Members α) :
    (m.fill of).isGroup m.delimiter = true := by
  simp [fill, Token.isGroup]

/-- Whether the fields of a variant may stand in the token. -/
def holdsFields (t : Token) : Bool :=
  t.isGroup .brace || t.isGroup .paren

theorem exists_of_holdsFields {t : Token} (h : holdsFields t = true) :
    ∃ d, (d = .brace ∨ d = .paren) ∧ t.isGroup d = true := by
  rcases Bool.or_eq_true_iff.1 h with hbrace | hparen
  · exact ⟨.brace, .inl rfl, hbrace⟩
  · exact ⟨.paren, .inr rfl, hparen⟩

theorem variantFields_of_group {g : Token} {d : Delimiter} (hd : d = .brace ∨ d = .paren)
    (hg : g.isGroup d = true) (s : Settings) (pointer : Text) (rest : List Token) :
    variantFields s pointer (g :: rest) = (some (fields s pointer g d), rest) := by
  obtain ⟨_, _, _, _, rfl⟩ := Token.isGroup_iff.1 hg
  rcases hd with rfl | rfl
  · rfl
  · rfl

theorem variantFields_of_none {tokens : List Token} (h : tokens.head?.any holdsFields = false)
    (s : Settings) (pointer : Text) : variantFields s pointer tokens = (none, tokens) := by
  cases tokens with
  | nil => rfl
  | cons t rest =>
    obtain ⟨hbrace, hparen⟩ : t.isGroup .brace = false ∧ t.isGroup .paren = false := by
      simpa [holdsFields] using h
    simp [variantFields, hbrace, hparen]

/-- The points of fields that may be missing. -/
def fieldPoints (fields : Option (Members Member)) : List Point :=
  fields.elim [] fun fields => fields.members.map Member.point

theorem variantFields_again (hput : Replaces s put) {pointer pointer' : Text}
    {tokens group tail : List Token}
    (hgroup : Token.forgetAll group = Token.forgetAll ((variantFields s pointer tokens).1.map
      (Members.fill (Member.fill fun a => (put a).tokens))).toList)
    (htail : Token.forgetAll tail = Token.forgetAll (variantFields s pointer tokens).2) :
    List.Forall₂ (Point.Renews s put pointer pointer')
      (fieldPoints (variantFields s pointer tokens).1)
      (fieldPoints (variantFields s pointer' (group ++ tail)).1) := by
  by_cases hfields : tokens.head?.any holdsFields = true
  · obtain ⟨t, ht, hholds⟩ := (Option.any_eq_true _ _).1 hfields
    obtain ⟨rest, rfl⟩ := List.head?_eq_some_iff.1 ht
    obtain ⟨d, hd, ht⟩ := exists_of_holdsFields hholds
    rw [variantFields_of_group hd ht] at hgroup ⊢
    obtain ⟨g', rfl, hg⟩ := Token.exists_singleton_of_forgetAll hgroup
    have hg' : g'.isGroup d = true := by
      rw [← Token.isGroup_forget, hg, Token.isGroup_forget]
      exact isGroup_fill (Member.fill fun a => (put a).tokens) (fields s pointer t d)
    rw [List.singleton_append, variantFields_of_group hd hg']
    exact fields_again hput hg
  · have hnone := Bool.eq_false_iff.2 hfields
    rw [variantFields_of_none hnone] at hgroup htail ⊢
    obtain rfl : group = [] := Token.forgetAll_eq_nil.1 hgroup
    have hhead : tail.head?.any holdsFields = false := by
      obtain ⟨cells, hs, rfl, rfl⟩ :=
        ((SideBySide.refl tokens).of_forgetAll rfl htail).exists_sound
      rw [← hnone]
      exact (Cell.head_any ((Token.selects_isGroup .brace).or (Token.selects_isGroup .paren)) hs).symm
    rw [List.nil_append, variantFields_of_none hhead]
    exact .nil

theorem scanned_variantOf {pointer : Text} {chunk : List Token} {a : Attachment}
    (ha : a ∈ (variantOf s pointer chunk).pieces.flatMap Piece.attachments) : a.Scanned s := by
  rcases Variant.mem_attachments.1 ha with ha | ⟨fields, hfields, ha⟩
  · exact Attachment.scan_scanned s pointer chunk a ha
  · exact scanned_variantFields hfields ha

theorem variantOf_again (hput : Replaces s put) {pointer pointer' : Text}
    {chunk chunk' : List Token}
    (h : Token.forgetAll chunk' =
      Token.forgetAll ((variantOf s pointer chunk).fill fun a => (put a).tokens)) :
    List.Forall₂ (Point.Renews s put pointer pointer') (variantOf s pointer chunk).points
      (variantOf s pointer' chunk').points := by
  obtain ⟨front, back, rfl, hfront, hback⟩ := Token.exists_append_of_forgetAll h
  obtain ⟨first, head, rfl, hfirst, hhead⟩ := Token.exists_append_of_forgetAll hfront
  obtain ⟨group, tail, rfl, hgroup, htail⟩ := Token.exists_append_of_forgetAll hback
  -- the head and what is behind it are laid side by side, so the head ends at the same place
  have happend := splitVariant_append (Attachment.scan s pointer chunk).2
  have hhead' : SideBySide (splitVariant (Attachment.scan s pointer chunk).2).2.1 head :=
    (SideBySide.refl _).of_forgetAll rfl hhead
  have hback' : SideBySide (splitVariant (Attachment.scan s pointer chunk).2).2.2
      (group ++ tail) := by
    have hfields := compatible_sideBySide.optionalFields fun m hm a ha =>
      hput.sideBySide (@scanned_variantFields s pointer
        (splitVariant (Attachment.scan s pointer chunk).2).2.2 m hm a ha)
    exact (hfields.append (.refl _)).of_forgetAll (forgetAll_variantFields s pointer _).symm hback
  have hbody := hhead'.append hback'
  rw [happend] at hbody
  obtain ⟨hrest, hscan⟩ := hput.scan_again hfirst hbody pointer'
  have hcut := @SideBySide.cut (fun ts => (splitVariant ts).2) splitVariant_cuts _ _ _ _ hhead'
    hback' (by rw [happend])
  rw [List.append_assoc]
  refine .cons ⟨rfl, ?_, ⟨[], by simp [variantOf], by simp [variantOf]⟩, hscan⟩ ?_
  · show (splitVariant (Attachment.scan s pointer' (first ++ (head ++ (group ++ tail)))).2).1 =
      (splitVariant (Attachment.scan s pointer chunk).2).1
    obtain ⟨cells, hs, hold, hnew⟩ := hbody.exists_sound
    rw [hrest, splitVariant_name, splitVariant_name, ← hold, ← hnew, fieldName_cells hs]
  · show List.Forall₂ _ _ (fieldPoints (variantFields s pointer' (splitVariant
      (Attachment.scan s pointer' (first ++ (head ++ (group ++ tail)))).2).2.2).1)
    rw [hrest, hcut]
    exact variantFields_again hput hgroup htail

theorem variants_again (hput : Replaces s put) {g g' : Token} {pointer pointer' : Text}
    (hg : g'.forget =
      ((variants s pointer g).fill (Variant.fill fun a => (put a).tokens)).forget) :
    List.Forall₂ (Point.Renews s put pointer pointer')
      ((variants s pointer g).members.flatMap Variant.points)
      ((variants s pointer' g').members.flatMap Variant.points) := by
  rw [variants_eq] at hg ⊢
  have hmembers := @ofChunks_again Variant (Variant.fill fun a => (put a).tokens)
    (fun base base' v v' => List.Forall₂ (Point.Renews s put base base') v.points v'.points) _
    Chunk.splitFields_inStep _ ?_ (fun h => variantOf_again hput h) g g' _ pointer pointer' _ hg
  · refine List.rel_flatMap hmembers fun v v' ⟨index, h⟩ => ?_
    exact h.imp fun _ _ hp => hp.of_entry
  · intro _ pointer chunk
    have hside : SideBySide ((variantOf s pointer chunk).fill Attachment.tokens)
        ((variantOf s pointer chunk).fill fun a => (put a).tokens) :=
      compatible_sideBySide.variant fun a ha => hput.sideBySide (scanned_variantOf ha)
    exact hside.of_forgetAll (forgetAll_fill_variantOf s pointer chunk).symm rfl

end Members

/-! ## Declarations -/

theorem Roster.face_fill (r : Roster) (f f' : Attachment → List Token) :
    (r.fill f).face = (r.fill f').face := by
  cases r <;> rfl

/-- A declaration is laid side by side with what its annotations were exchanged in. What
stands in front of its members is steady, and these are in a cell of their own. -/
theorem Shape.exists_cells {s : Settings} {put : Attachment → List Token} {pointer : Text}
    {kind : Kind} {tokens rest first : List Token}
    {shape : Shape} (h : Shape.take s pointer kind tokens = .ok (shape, rest))
    (hfirst : Token.forgetAll first = Token.forgetAll (shape.fill put)) :
    ∃ front behind : List Cell, (∀ c ∈ front ++ behind, c.Sound) ∧ (∀ c ∈ front, c.Steady) ∧
      tokens = Cell.olds (front ++ behind) ++ rest ∧ Cell.news (front ++ behind) = first ∧
      Cell.olds front = shape.before ∧ ∀ r ∈ shape.roster, ∃ after g g',
        behind = .same g g' :: after ∧ g'.forget = (r.fill put).forget := by
  rcases Shape.take_tokens h with ⟨hroster, hafter, rfl⟩ | ⟨reading, g, hgroup, hroster, rfl⟩
  · rw [fill, hroster, hafter] at hfirst
    obtain ⟨front, hfront, hold, rfl⟩ :=
      @Cell.exists_steady shape.before first (by simpa using hfirst)
    refine ⟨front, [], ?_, hfront, by simp [hold], by simp, hold, ?_⟩
    · intro c hc
      exact (hfront c (by simpa using hc)).sound
    · rw [hroster]
      intro r hr
      cases hr
  · rw [fill, hroster] at hfirst
    obtain ⟨most, last, rfl, hmost, hlast⟩ := Token.exists_append_of_forgetAll hfirst
    obtain ⟨ahead, middle, rfl, hahead, hmiddle⟩ := Token.exists_append_of_forgetAll hmost
    obtain ⟨g', rfl, hg⟩ := Token.exists_singleton_of_forgetAll hmiddle
    obtain ⟨front, hfront, hold, rfl⟩ := Cell.exists_steady hahead
    obtain ⟨after, hafter, hold', rfl⟩ := Cell.exists_steady hlast
    have hface : g.face = g'.face := by
      rw [Token.face_of_forget hg, Roster.face_fill _ put Attachment.tokens]
      exact (Token.face_of_forget (Reading.forget_fill_read s pointer hgroup)).symm
    refine ⟨front, .same g g' :: after, ?_, hfront, ?_, ?_, hold, ?_⟩
    · intro c hc
      rcases List.mem_append.1 hc with hc | hc
      · exact (hfront c hc).sound
      · rcases List.mem_cons.1 hc with rfl | hc
        · exact hface
        · exact (hafter c hc).sound
    · simp [Cell.old, hold, hold']
    · simp [Cell.new]
    · intro r hr
      rw [hroster] at hr
      cases hr
      exact ⟨after, g, g', rfl, hg⟩

/-- Where no declaration is found, none is found again. -/
theorem Shape.take_fails_again {s : Settings} {pointer pointer' : Text} {kind : Kind}
    {tokens tokens' : List Token} {e : Missing} (h : Shape.take s pointer kind tokens = .error e)
    (hside : SideBySide tokens tokens') :
    ∃ e', Shape.take s pointer' kind tokens' = .error e' := by
  obtain ⟨cells, hs, rfl, rfl⟩ := hside.exists_sound
  rcases Shape.paired_take s pointer pointer' kind cells hs with
    ⟨_, _, _, _, _, hold, -, -⟩ | ⟨_, e', -, hnew⟩
  · rw [h] at hold
    cases hold
  · exact ⟨e', hnew⟩

/-- A declaration that is read is read again off the same cells. -/
theorem Shape.take_cells {s : Settings} {pointer : Text} {kind : Kind} {own behind : List Cell}
    {shape : Shape} (hs : ∀ c ∈ own ++ behind, c.Sound)
    (h : Shape.take s pointer kind (Cell.olds (own ++ behind)) = .ok (shape, Cell.olds behind))
    (pointer' : Text) :
    ∃ shape', Shape.take s pointer' kind (Cell.news (own ++ behind)) =
        .ok (shape', Cell.news behind) ∧ Twin s pointer pointer' own shape shape' := by
  rcases Shape.paired_take s pointer pointer' kind (own ++ behind) hs with
    ⟨own', behind', shape₁, shape', hcells, hold, hnew, htwin⟩ | ⟨e, e', hold, -⟩
  · rw [h] at hold
    obtain ⟨rfl, holds⟩ := Prod.mk.inj (Except.ok.inj hold)
    obtain ⟨rfl, rfl⟩ := Cell.append_inj_right hcells holds
    exact ⟨shape', hnew, htwin⟩
  · rw [h] at hold
    cases hold

section Again

variable {s : Settings} {put : Attachment → Form} (hput : Replaces s put)

include hput

theorem Reading.read_again (reading : Reading) {g g' : Token} {pointer pointer' : Text}
    (hg : g'.forget = ((reading.read s pointer g).fill fun a => (put a).tokens).forget) :
    List.Forall₂ (Point.Renews s put pointer pointer') (reading.read s pointer g).points
      (reading.read s pointer' g').points := by
  cases reading with
  | fields d => exact Members.fields_again hput hg
  | variants => exact Members.variants_again hput hg
  | traitMembers => exact Members.traitMembers_again hput hg

/-- A declaration is found again, with the same points. -/
theorem Shape.take_again {pointer : Text} {kind : Kind} {tokens rest first rest' : List Token}
    {shape : Shape} (h : Shape.take s pointer kind tokens = .ok (shape, rest))
    (hfirst : Token.forgetAll first = Token.forgetAll (shape.fill fun a => (put a).tokens))
    (hrest : SideBySide rest rest') (pointer' : Text) :
    ∃ shape', Shape.take s pointer' kind (first ++ rest') = .ok (shape', rest') ∧
      shape'.kind = shape.kind ∧ shape'.name = shape.name ∧
      List.Forall₂ (Point.Renews s put pointer pointer') shape.points shape'.points := by
  obtain ⟨front, after, hown, hsteady, rfl, rfl, hfront, hlisted⟩ := Shape.exists_cells h hfirst
  obtain ⟨behind, hbehind, rfl, rfl⟩ := hrest.exists_sound
  have hsound : ∀ c ∈ front ++ after ++ behind, c.Sound := fun c hc =>
    (List.mem_append.1 hc).elim (hown c) (hbehind c)
  rw [← Cell.olds_append] at h
  rw [← Cell.news_append]
  obtain ⟨shape', hnew, htwin⟩ := Shape.take_cells hsound h pointer'
  refine ⟨shape', hnew, ?_⟩
  -- both divide the cells in front of the members
  generalize hcells : front ++ after = own at htwin
  cases htwin with
  | solid hlikens hshape hshape' =>
    obtain ⟨rfl, -⟩ := Cell.append_inj (hcells.trans (List.append_nil _).symm)
      (hfront.trans hlikens.before)
    refine ⟨hlikens.kind, hlikens.name hsteady, ?_⟩
    rw [points, points, hshape, hshape']
    exact .nil
  | listed reading hlikens _ hshape hshape' _ _ =>
    obtain ⟨rfl, hmembers⟩ := Cell.append_inj hcells (hfront.trans hlikens.before)
    obtain ⟨_, g, g', rfl, hg⟩ := hlisted _ hshape
    obtain ⟨rfl, rfl⟩ := Cell.same.inj (List.cons.inj hmembers).1
    refine ⟨hlikens.kind, hlikens.name hsteady, ?_⟩
    rw [points, points, hshape, hshape']
    exact reading.read_again hput hg

end Again

/-! ## Items -/

theorem SideBySide.select {old new : List Token} (h : SideBySide old new) :
    Kind.select new = Kind.select old := by
  obtain ⟨cells, hs, rfl, rfl⟩ := h.exists_sound
  exact (Kind.select_cells hs).symm

/-- What an item is, in a word. -/
def Item.label : Item → Text
  | declared d => d.shape.kind.label
  | enclosing _ _ => Site.enclosing.label
  | unsupported _ _ => "unsupported"

/-- The second item is read in the place of the first. -/
structure Item.Renews (s : Settings) (put : Attachment → Form) (base base' : Text)
    (i i' : Item) : Prop where
  label : i'.label = i.label
  points : List.Forall₂ (Point.Renews s put base base') i.points i'.points

namespace Item

/-- No declaration stands behind the annotations and visibility of an item. -/
def Undeclared (s : Settings) (pointer : Text) (body : List Token) : Prop :=
  ∀ kind, Kind.select (spanVisibility body).2 = some kind →
    ∃ e, Shape.take s pointer kind (spanVisibility body).2 = .error e

/-- An item is passed through, or it is a declaration. -/
theorem parse_cases (s : Settings) (pointer : Text) (tokens : List Token) :
    (Undeclared s pointer (Attachment.scan s pointer tokens).2 ∧
      ∃ d, d.isError = false ∧ parse s pointer tokens = passThrough tokens d) ∨
    ∃ kind shape rest,
      Kind.select (spanVisibility (Attachment.scan s pointer tokens).2).2 = some kind ∧
      Shape.take s pointer kind (spanVisibility (Attachment.scan s pointer tokens).2).2 =
        .ok (shape, rest) ∧
      parse s pointer tokens = (.declared ⟨pointer, (Attachment.scan s pointer tokens).1,
        (spanVisibility (Attachment.scan s pointer tokens).2).1, shape⟩, rest) := by
  cases hselect : Kind.select (spanVisibility (Attachment.scan s pointer tokens).2).2 with
  | none =>
    refine .inl ⟨fun kind hkind => ?_, unknownKind pointer
      (spanVisibility (Attachment.scan s pointer tokens).2).2.head?, rfl,
      by simp only [parse, hselect]⟩
    rw [hselect] at hkind
    cases hkind
  | some kind =>
    cases htake : Shape.take s pointer kind
        (spanVisibility (Attachment.scan s pointer tokens).2).2 with
    | error e =>
      refine .inl ⟨fun kind' hkind => ⟨e, ?_⟩, misfit pointer tokens e, rfl,
        by simp only [parse, hselect, htake]⟩
      rw [hselect] at hkind
      cases hkind
      exact htake
    | ok r => exact .inr ⟨kind, r.1, r.2, rfl, htake, by simp only [parse, hselect, htake]⟩

/-- A declaration behind annotations and visibility is an item. -/
theorem parse_of_take {s : Settings} {pointer : Text} {tokens behind visibility body rest :
    List Token} {attachments : List Attachment} {kind : Kind} {shape : Shape}
    (hscan : Attachment.scan s pointer tokens = (attachments, behind))
    (hvisibility : spanVisibility behind = (visibility, body))
    (hselect : Kind.select body = some kind)
    (htake : Shape.take s pointer kind body = .ok (shape, rest)) :
    parse s pointer tokens = (.declared ⟨pointer, attachments, visibility, shape⟩, rest) := by
  simp only [parse, hscan, hvisibility, hselect, htake]

/-- No item is declared by no tokens. -/
theorem parse_nil (s : Settings) (pointer : Text) :
    ∃ d, parse s pointer [] = (.unsupported [] d, []) := by
  obtain ⟨hforms, hrest⟩ := List.append_eq_nil_iff.1 (Form.readAll_append [])
  rcases parse_cases s pointer [] with ⟨-, d, -, hparse⟩ | ⟨kind, shape, rest, hselect, -⟩
  · refine ⟨d, ?_⟩
    rw [hparse]
    simp only [passThrough, hforms, hrest, spanPassed, List.append_nil]
  · rw [Attachment.scan, hrest] at hselect
    cases hselect

/-- A reason to pass an item through is no error. -/
theorem isError_of_parse {s : Settings} {pointer : Text} {tokens passed rest : List Token}
    {d : Diagnostic} (h : parse s pointer tokens = (.unsupported passed d, rest)) :
    d.isError = false := by
  rcases parse_cases s pointer tokens with ⟨-, d', hd', hparse⟩ | ⟨_, _, _, -, -, hparse⟩
  · rw [h] at hparse
    cases hparse
    exact hd'
  · rw [h] at hparse
    cases hparse

theorem isError_of_parseFrom {s : Settings} {index : Nat} {tokens passed : List Token}
    {d : Diagnostic} (h : .unsupported passed d ∈ parseFrom s index tokens) :
    d.isError = false := by
  fun_induction parseFrom s index tokens with
  | case1 => cases h
  | case2 index t rest result ih =>
    rcases List.mem_cons.1 h with hfirst | hrest
    · exact isError_of_parse (Prod.ext hfirst.symm rfl)
    · exact ih hrest

theorem isError_of_parseAll {s : Settings} {tokens passed : List Token} {d : Diagnostic}
    (h : .unsupported passed d ∈ parseAll s tokens) : d.isError = false := by
  rcases parseAll_cases s tokens with ⟨-, hparse⟩ | ⟨-, hparse⟩
  · rw [hparse] at h
    exact isError_of_parseFrom h
  · rw [hparse] at h
    rcases List.mem_cons.1 h with h | h
    · cases h
    · exact isError_of_parseFrom h

theorem Undeclared.again {s : Settings} {pointer : Text} {body body' : List Token}
    (h : Undeclared s pointer body) (hside : SideBySide body body') (pointer' : Text) :
    Undeclared s pointer' body' := by
  have hrest := (SideBySide.cuts spanVisibility_cuts hside).2
  intro kind hkind
  rw [hrest.select] at hkind
  obtain ⟨e, he⟩ := h kind hkind
  exact Shape.take_fails_again he hrest

theorem renews_unsupported (s : Settings) (put : Attachment → Form) (base base' : Text)
    (tokens tokens' : List Token) (d d' : Diagnostic) :
    Renews s put base base' (.unsupported tokens d) (.unsupported tokens' d') :=
  ⟨rfl, .nil⟩

section Again

variable {s : Settings} {put : Attachment → Form} (hput : Replaces s put)
  {pointer : Text} {tokens first rest' : List Token}

/-- What was passed through is passed through again. -/
theorem passThrough_again {d : Diagnostic} {f : Attachment → List Token}
    (hnone : Undeclared s pointer (Form.readAll tokens).2)
    (hfirst : Token.forgetAll first = Token.forgetAll ((passThrough tokens d).1.fill f))
    (hrest : SideBySide (passThrough tokens d).2 rest') (pointer' : Text) :
    ∃ tokens' d', parse s pointer' (first ++ rest') = (.unsupported tokens' d', rest') := by
  obtain ⟨front, passed, rfl, hfront, hpassed⟩ := Token.exists_append_of_forgetAll hfirst
  obtain ⟨forms, rfl, hforms⟩ := Form.exists_recurs (Form.readAll_spec tokens).1 hfront
  have happend : (spanPassed (Form.readAll tokens).2).1 ++ (passThrough tokens d).2 =
      (Form.readAll tokens).2 := spanPassed_append _
  have hpassed' := (SideBySide.refl _).of_forgetAll rfl hpassed
  have hbody := hpassed'.append hrest
  rw [happend] at hbody
  have hread : Form.readAll (forms.flatMap Form.tokens ++ passed ++ rest') =
      (forms, passed ++ rest') := by
    rw [List.append_assoc]
    exact Form.readAll_of_proper (Form.proper_of_recurs hforms)
      (hbody.read_eq_none (Form.readAll_spec tokens).2)
  have hcut := SideBySide.cut spanPassed_cuts hpassed' hrest (by rw [happend]; rfl)
  rcases parse_cases s pointer' (forms.flatMap Form.tokens ++ passed ++ rest') with
    ⟨-, d', -, hparse⟩ | ⟨kind, shape, rest, hselect, htake, -⟩
  · rw [hparse, passThrough, hread]
    simp only [hcut]
    exact ⟨_, _, rfl⟩
  · rw [Attachment.scan, hread] at hselect htake
    obtain ⟨e, he⟩ := hnone.again hbody pointer' kind hselect
    rw [htake] at he
    cases he

include hput

/-- An item is found again. -/
theorem parse_again
    (hfirst : Token.forgetAll first =
      Token.forgetAll ((parse s pointer tokens).1.fill fun a => (put a).tokens))
    (hrest : SideBySide (parse s pointer tokens).2 rest') (pointer' : Text) :
    (parse s pointer' (first ++ rest')).2 = rest' ∧
      Renews s put pointer pointer' (parse s pointer tokens).1
        (parse s pointer' (first ++ rest')).1 := by
  rcases parse_cases s pointer tokens with ⟨hnone, d, -, hparse⟩ |
    ⟨kind, shape, rest, hselect, htake, hparse⟩
  · rw [hparse] at hfirst hrest ⊢
    obtain ⟨tokens', d', hagain⟩ := passThrough_again hnone hfirst hrest pointer'
    rw [hagain]
    exact ⟨rfl, renews_unsupported s put pointer pointer' _ _ _ _⟩
  · rw [hparse] at hfirst hrest ⊢
    obtain ⟨front, last, rfl, hfront, hlast⟩ := Token.exists_append_of_forgetAll hfirst
    obtain ⟨own, visibility, rfl, hown, hvisibility⟩ := Token.exists_append_of_forgetAll hfront
    have hvisibility' := (SideBySide.refl _).of_forgetAll rfl hvisibility
    have hlast' : SideBySide (spanVisibility (Attachment.scan s pointer tokens).2).2
        (last ++ rest') := by
      have hshape : SideBySide (shape.fill Attachment.tokens)
          (shape.fill fun a => (put a).tokens) :=
        compatible_sideBySide.shape fun r hr a ha =>
          hput.sideBySide (Shape.scanned_take htake hr ha)
      refine (hshape.append hrest).of_forgetAll (Shape.forgetAll_fill htake).symm ?_
      rw [Token.forgetAll_append, Token.forgetAll_append, hlast]
    have hbody := hvisibility'.append hlast'
    rw [spanVisibility_append] at hbody
    have hcut := SideBySide.cut spanVisibility_cuts hvisibility' hlast'
      (by rw [spanVisibility_append])
    obtain ⟨hbehind, hscan⟩ := hput.scan_again hown hbody pointer'
    obtain ⟨shape', htake', hkind, hname, hpoints⟩ :=
      Shape.take_again hput htake hlast hrest pointer'
    have happend : own ++ visibility ++ last ++ rest' =
        own ++ (visibility ++ (last ++ rest')) := by simp
    rw [happend]
    rcases parse_cases s pointer' (own ++ (visibility ++ (last ++ rest'))) with
      ⟨hnone, -⟩ | ⟨kind', shape'', rest'', hselect', htake'', hparse'⟩
    · rw [hbehind] at hnone
      obtain ⟨e, he⟩ := hnone kind (by rw [hcut, hlast'.select, hselect])
      rw [hcut, htake'] at he
      cases he
    · rw [hbehind, hcut] at hselect' htake''
      rw [hlast'.select, hselect] at hselect'
      cases hselect'
      rw [htake'] at htake''
      obtain ⟨rfl, rfl⟩ := Prod.mk.inj (Except.ok.inj htake'')
      rw [hparse']
      refine ⟨rfl, congrArg Kind.label hkind, ?_⟩
      rw [points_declared, points_declared]
      refine .cons ⟨congrArg Site.declaration hkind, hname, ⟨[], ?_, ?_⟩, hscan⟩ hpoints
      · exact (List.append_nil pointer).symm
      · exact (List.append_nil pointer').symm

end Again

/-! ## Files -/

/-- No annotation that belongs to the file follows its head. -/
theorem read_behindHead {tokens rest : List Token} {f : Form}
    (h : Form.read (behindHead tokens) = some (f, rest)) : f.isInner = false := by
  obtain ⟨hproper, hnone⟩ := Form.readAll_spec tokens
  rw [behindHead_eq] at h
  cases hforms : (Form.readAll tokens).1.dropWhile Form.isInner with
  | nil =>
    rw [hforms, List.flatMap_nil, List.nil_append, hnone] at h
    cases h
  | cons g forms =>
    have hg : g ∈ (Form.readAll tokens).1 :=
      (List.dropWhile_sublist _).mem (by rw [hforms]; exact List.mem_cons_self)
    rw [hforms, List.flatMap_cons, List.append_assoc, (hproper g hg).read] at h
    cases h
    have hhead := List.head?_dropWhile_not Form.isInner (Form.readAll tokens).1
    rw [hforms] at hhead
    exact hhead

/-- If no annotation that belongs to the file follows, the head ends. -/
theorem takeWhile_readAll {tokens : List Token}
    (h : ∀ f rest, Form.read tokens = some (f, rest) → f.isInner = false) :
    (Form.readAll tokens).1.takeWhile Form.isInner = [] := by
  rw [Form.readAll]
  split
  · rfl
  · rename_i f rest hread
    rw [List.takeWhile_cons_of_neg]
    rw [h f rest hread]
    exact Bool.false_ne_true

section Files

variable {s : Settings} {put : Attachment → Form} (hput : Replaces s put)

include hput

theorem sideBySide_parseFrom {index : Nat} {tokens tokens' : List Token}
    (h : Token.forgetAll tokens' = Token.forgetAll
      ((parseFrom s index tokens).flatMap (fill fun a => (put a).tokens))) :
    SideBySide tokens tokens' := by
  have hside : SideBySide ((parseFrom s index tokens).flatMap (fill Attachment.tokens))
      ((parseFrom s index tokens).flatMap (fill fun a => (put a).tokens)) :=
    compatible_sideBySide.flatMap fun i hi => compatible_sideBySide.item fun a ha =>
      hput.sideBySide (parseFrom_scanned hi ha)
  exact hside.of_forgetAll (parseFrom_tokens s index tokens).symm h

/-- The items of a file are found again, each at the same distance from the first. -/
theorem parseFrom_again {index index' : Nat} {tokens tokens' : List Token}
    (h : Token.forgetAll tokens' = Token.forgetAll
      ((parseFrom s index tokens).flatMap (fill fun a => (put a).tokens))) :
    List.Forall₂
      (fun i i' => ∃ n, Renews s put (pointerOf (index + n)) (pointerOf (index' + n)) i i')
      (parseFrom s index tokens) (parseFrom s index' tokens') := by
  fun_induction parseFrom s index tokens generalizing index' tokens' with
  | case1 index =>
    rw [List.flatMap_nil, Token.forgetAll_nil, Token.forgetAll_eq_nil] at h
    subst h
    rw [parseFrom]
    exact .nil
  | case2 index t rest result =>
    rename_i ih
    have hne : tokens' ≠ [] :=
      (@sideBySide_parseFrom s put hput index (t :: rest) tokens'
        (by rw [parseFrom]; exact h)).ne_nil (List.cons_ne_nil t rest)
    rw [List.flatMap_cons] at h
    obtain ⟨first, rest', rfl, hfirst, hrest⟩ := Token.exists_append_of_forgetAll h
    obtain ⟨hbehind, hitem⟩ :=
      parse_again hput hfirst (sideBySide_parseFrom hput hrest) (pointerOf index')
    obtain ⟨u, more, hcons⟩ := List.exists_cons_of_ne_nil hne
    rw [hcons] at hbehind hitem ⊢
    rw [parseFrom, hbehind]
    refine .cons ⟨0, hitem⟩ ((@ih (index' + 1) rest' hrest).imp fun i i' hrenews => ?_)
    obtain ⟨n, hn⟩ := hrenews
    rw [Nat.add_right_comm index 1 n, Nat.add_right_comm index' 1 n] at hn
    exact ⟨n + 1, hn⟩

/-- The head of a file consists of the new annotations at its start that are inner ones; the
others go to what is behind it. -/
theorem head_again {index : Nat} {tokens tokens' : List Token}
    (h : Token.forgetAll tokens' = Token.forgetAll
      ((Attachment.ofForms s (pointerOf 0) (headForms tokens)).flatMap (fun a => (put a).tokens) ++
        (parseFrom s index (behindHead tokens)).flatMap (fill fun a => (put a).tokens))) :
    ∃ forms rest',
      List.Forall₂ Form.Recurs
        ((Attachment.ofForms s (pointerOf 0) (headForms tokens)).map put) forms ∧
      headForms tokens' = forms.takeWhile Form.isInner ∧
      behindHead tokens' = (forms.dropWhile Form.isInner).flatMap Form.tokens ++ rest' ∧
      Token.forgetAll rest' = Token.forgetAll
        ((parseFrom s index (behindHead tokens)).flatMap (fill fun a => (put a).tokens)) := by
  obtain ⟨front, rest', rfl, hfront, hrest⟩ := Token.exists_append_of_forgetAll h
  have hscanned : ∀ a ∈ Attachment.ofForms s (pointerOf 0) (headForms tokens), a.Scanned s :=
    fun a ha => Attachment.scanned_of_mem
      (fun f hf => (Form.readAll_spec tokens).1 f (List.takeWhile_sublist _ |>.mem hf)) ha
  obtain ⟨forms, rfl, hforms⟩ := hput.recurs hscanned hfront
  have houter : ∀ f rest, Form.read rest' = some (f, rest) → f.isInner = false := by
    intro f rest hread
    obtain ⟨g, more, hg, hinner⟩ := (sideBySide_parseFrom hput hrest).exists_read hread
    exact hinner (read_behindHead hg)
  have hhead : headForms (forms.flatMap Form.tokens ++ rest') = forms.takeWhile Form.isInner := by
    rw [headForms, Form.readAll_flatMap_append (Form.proper_of_recurs hforms),
      List.takeWhile_append, takeWhile_readAll houter, List.append_nil]
    split
    · rename_i hlength
      exact ((List.takeWhile_sublist _).eq_of_length hlength).symm
    · rfl
  refine ⟨forms, rest', hforms, hhead, ?_, hrest⟩
  have happend := headForms_append (forms.flatMap Form.tokens ++ rest')
  rw [hhead] at happend
  apply List.append_cancel_left (happend.trans _)
  rw [← List.append_assoc, ← List.flatMap_append, List.takeWhile_append_dropWhile]

end Files

end Item

end CondAttrs
