import CondAttrs.Proofs.Lexical.Standing
import CondAttrs.Proofs.Reading.Accept
import CondAttrs.Proofs.Reading.Fill

/-!
# What reading refuses

The faults of directives. A directive is refused for one fault, found at some depth of its
arguments. The fault is an error, and it is placed at a token of the directive. What it is and
where it stands in the text does not depend on the pointer of the annotation, which only
labels it.

## Main definitions

* `Diagnostic.unpointed`: a diagnostic without its pointer.
* `Agree`: two results are the same up to pointers.
* `Diagnostic.Within`: an error at a token among some others.

## Main statements

* `Attribute.agree_ofForm`: a form is accepted or refused alike under all pointers.
* `Attribute.within_of_ofForm`: the fault of a form is an error at one of its tokens.
-/

namespace CondAttrs

/-- A diagnostic without its pointer. -/
def Diagnostic.unpointed (d : Diagnostic) : Diagnostic :=
  { d with pointer := [] }

/-- The two results are the same up to the pointer of a fault. -/
def Agree {α : Type} (r r' : Except Diagnostic α) : Prop :=
  (∃ a, r = .ok a ∧ r' = .ok a) ∨
    ∃ d d', r = .error d ∧ r' = .error d' ∧ d'.unpointed = d.unpointed

theorem agree_ok {α : Type} (a : α) : Agree (.ok a) (.ok a) :=
  .inl ⟨a, rfl, rfl⟩

theorem agree_error {α : Type} {d d' : Diagnostic} (h : d'.unpointed = d.unpointed) :
    Agree (.error d : Except Diagnostic α) (.error d') :=
  .inr ⟨d, d', rfl, rfl, h⟩

section Agree

variable {s : Settings} {pointer pointer' : Text}

theorem Body.agree_parse {anchor : Position} {tokens : List Token}
    (h : ∀ {condition comma rest}, Body.splitCondition tokens = some (condition, comma, rest) →
      Agree (Attribute.ofEntries s pointer 0 (Form.entries (Body.listTokens rest)))
        (Attribute.ofEntries s pointer' 0 (Form.entries (Body.listTokens rest)))) :
    Agree (Body.parse s pointer anchor tokens) (Body.parse s pointer' anchor tokens) := by
  rw [Body.parse, Body.parse]
  split
  · exact agree_error rfl
  · exact agree_error rfl
  · rename_i hsplit
    rcases h hsplit with ⟨attributes, hok, hok'⟩ | ⟨d, d', herror, herror', hd⟩
    · rw [hok, hok']
      exact agree_ok _
    · rw [herror, herror']
      exact agree_error hd

theorem Attribute.agree_ofEntries {forms : List Form} {index : Nat}
    (h : ∀ f ∈ forms, ∀ pointer pointer', Agree (ofEntry s pointer f) (ofEntry s pointer' f)) :
    Agree (ofEntries s pointer index forms) (ofEntries s pointer' index forms) := by
  induction forms generalizing index with
  | nil =>
    rw [ofEntries, ofEntries]
    exact agree_ok []
  | cons f forms ih =>
    obtain ⟨hf, hforms⟩ := List.forall_mem_cons.1 h
    rw [ofEntries, ofEntries]
    rcases hf (Pointer.entry pointer "annotations" index)
      (Pointer.entry pointer' "annotations" index) with ⟨attr, hok, hok'⟩ |
      ⟨d, d', herror, herror', hd⟩
    · rw [hok, hok']
      rcases @ih (index + 1) hforms with ⟨more, hmore, hmore'⟩ | ⟨d, d', herror, herror', hd⟩
      · rw [hmore, hmore']
        exact agree_ok _
      · rw [herror, herror']
        exact agree_error hd
    · rw [herror, herror']
      exact agree_error hd

theorem Attribute.agree_ofEntry {f : Form}
    (h : Agree (ofForm s pointer f) (ofForm s pointer' f)) :
    Agree (ofEntry s pointer f) (ofEntry s pointer' f) := by
  rw [ofEntry, ofEntry]
  split
  · exact agree_error rfl
  split
  · exact agree_error rfl
  · exact h

/-- A form is accepted or refused alike under all pointers. -/
theorem Attribute.agree_ofForm (s : Settings) (pointer pointer' : Text) (f : Form) :
    Agree (ofForm s pointer f) (ofForm s pointer' f) := by
  induction hn : f.size using Nat.strongRecOn generalizing f pointer pointer' with
  | ind n ih =>
    rw [ofForm, ofForm]
    split
    · exact agree_ok _
    split
    · rename_i group harguments
      have hsize := Form.sizeAll_children_lt_size harguments
      have hbody : Agree (Body.parse s pointer group.pos group.children)
          (Body.parse s pointer' group.pos group.children) := by
        refine Body.agree_parse fun hsplit => agree_ofEntries fun g hg _ _ => agree_ofEntry ?_
        have hg := Body.size_lt_of_mem_entries hsplit hg
        exact ih g.size (by omega) _ _ g rfl
      split
      · rcases hbody with ⟨body, hok, hok'⟩ | ⟨d, d', herror, herror', hd⟩
        · rw [hok, hok']
          exact agree_ok _
        · rw [herror, herror']
          exact agree_error hd
      · exact agree_error rfl
    · exact agree_error rfl

end Agree

/-! ## The tokens of a directive -/

namespace Form

/-- A form is placed at its first token. -/
theorem pos_mem_positionsAll (f : Form) : f.pos ∈ Token.positionsAll f.tokens := by
  cases f with
  | doc => simp [pos, tokens, Token.positionsAll, Token.positions]
  | marked hash bang bracket => exact Token.pos_mem_positionsAll List.mem_cons_self
  | bare first rest => exact Token.pos_mem_positionsAll List.mem_cons_self

theorem positionsAll_arguments_subset (f : Form) :
    Token.positionsAll f.arguments ⊆ Token.positionsAll f.tokens := by
  have hcontent : Token.positionsAll f.content ⊆ Token.positionsAll f.tokens := by
    cases f with
    | doc => exact List.nil_subset _
    | marked hash bang bracket => exact Token.positionsAll_children_subset (by simp [tokens])
    | bare first rest => exact List.Subset.refl _
  rw [← AttributePath.split_append f.content, Token.positionsAll_append] at hcontent
  exact (List.append_subset.1 hcontent).2

/-- The entries of a directive are made of its arguments. -/
theorem tokens_subset_of_mem_entries {tokens : List Token} {f : Form} (h : f ∈ entries tokens) :
    f.tokens ⊆ tokens := by
  fun_induction entries tokens with
  | case1 => cases h
  | case2 first rest hcomma ih => exact List.subset_cons_of_subset first (ih h)
  | case3 first rest hcomma g after hread ih =>
    rw [← read_append hread]
    rcases List.mem_cons.1 h with rfl | h
    · exact List.subset_append_left _ _
    · exact List.subset_append_of_subset_right _ (ih h)
  | case4 first rest hcomma hread ih =>
    rcases List.mem_cons.1 h with rfl | h
    · exact List.cons_subset_cons first (List.takeWhile_subset _)
    · exact List.subset_cons_of_subset first
        (List.Subset.trans (ih h) (List.dropWhile_subset _))

end Form

theorem Body.positionsAll_listTokens_subset (rest : List Token) :
    Token.positionsAll (listTokens rest) ⊆ Token.positionsAll rest := by
  unfold listTokens braceContent
  split
  · split
    · exact Token.positionsAll_children_subset List.mem_cons_self
    · exact List.Subset.refl _
  · split
    · exact Token.positionsAll_children_subset List.mem_cons_self
    · exact List.Subset.refl _
  · exact List.Subset.refl _

/-! ## Where faults stand -/

/-- The diagnostic is an error at one of the tokens, at some depth. -/
def Diagnostic.Within (d : Diagnostic) (ts : List Token) : Prop :=
  d.isError = true ∧ d.pos ∈ Token.positionsAll ts

theorem Diagnostic.Within.mono {d : Diagnostic} {ts us : List Token} (h : d.Within ts)
    (hsubset : Token.positionsAll ts ⊆ Token.positionsAll us) : d.Within us :=
  ⟨h.1, hsubset h.2⟩

section Within

variable {s : Settings} {pointer : Text} {d : Diagnostic}

theorem Attribute.within_of_ofEntries {forms : List Form} {index : Nat}
    (hforms : ∀ f ∈ forms, ∀ pointer, ofEntry s pointer f = .error d → d.Within f.tokens)
    (h : ofEntries s pointer index forms = .error d) : ∃ f ∈ forms, d.Within f.tokens := by
  induction forms generalizing index with
  | nil =>
    rw [ofEntries] at h
    cases h
  | cons f forms ih =>
    obtain ⟨hf, hforms⟩ := List.forall_mem_cons.1 hforms
    rw [ofEntries] at h
    split at h
    · rename_i hentry
      cases h
      exact ⟨f, List.mem_cons_self, hf _ hentry⟩
    split at h
    · rename_i hentries
      cases h
      obtain ⟨g, hg, hwithin⟩ := ih hforms hentries
      exact ⟨g, List.mem_cons_of_mem f hg, hwithin⟩
    · cases h

theorem Body.within_of_parse {group : Token}
    (hentries : ∀ {condition comma rest}, splitCondition group.children =
      some (condition, comma, rest) → ∀ f ∈ Form.entries (listTokens rest), ∀ pointer,
        Attribute.ofEntry s pointer f = .error d → d.Within f.tokens)
    (h : Body.parse s pointer group.pos group.children = .error d) : d.Within [group] := by
  have hchildren : Token.positionsAll group.children ⊆ Token.positionsAll [group] :=
    Token.positionsAll_children_subset List.mem_cons_self
  rw [Body.parse] at h
  split at h
  · cases h
    refine ⟨rfl, ?_⟩
    cases hlast : group.children.getLast? with
    | none => exact Token.pos_mem_positionsAll List.mem_cons_self
    | some t => exact hchildren (Token.pos_mem_positionsAll (List.mem_of_getLast? hlast))
  · rename_i comma rest hsplit
    cases h
    refine ⟨rfl, hchildren (Token.pos_mem_positionsAll ?_)⟩
    rw [← splitCondition_append hsplit]
    exact List.mem_cons_self
  · rename_i condition comma rest hne hsplit
    split at h
    · rename_i herror
      cases h
      obtain ⟨f, hf, hwithin⟩ := Attribute.within_of_ofEntries (hentries hsplit) herror
      have hrest : Token.positionsAll rest ⊆ Token.positionsAll group.children := by
        refine Token.positionsAll_subset fun t ht => ?_
        rw [← splitCondition_append hsplit]
        exact List.mem_append_right _ (List.mem_cons_of_mem _ ht)
      have hform := Token.positionsAll_subset (Form.tokens_subset_of_mem_entries hf)
      exact hwithin.mono fun p hp =>
        hchildren (hrest (positionsAll_listTokens_subset rest (hform hp)))
    · cases h

theorem Attribute.within_of_ofEntry {f : Form}
    (hform : ofForm s pointer f = .error d → d.Within f.tokens)
    (h : ofEntry s pointer f = .error d) : d.Within f.tokens := by
  rw [ofEntry] at h
  split at h
  · cases h
    exact ⟨rfl, f.pos_mem_positionsAll⟩
  split at h
  · cases h
    exact ⟨rfl, f.pos_mem_positionsAll⟩
  · exact hform h

/-- The fault of a form is an error at one of its tokens. -/
theorem Attribute.within_of_ofForm {f : Form} (h : ofForm s pointer f = .error d) :
    d.Within f.tokens := by
  induction hn : f.size using Nat.strongRecOn generalizing f pointer with
  | ind n ih =>
    rw [ofForm] at h
    split at h
    · cases h
    split at h
    · rename_i group harguments
      split at h
      · split at h
        · rename_i herror
          cases h
          refine (Body.within_of_parse (fun hsplit g hg pointer hentry => ?_) herror).mono ?_
          · have hsize := Form.sizeAll_children_lt_size harguments
            have hsmaller := Body.size_lt_of_mem_entries hsplit hg
            exact within_of_ofEntry (fun hform => ih g.size (by omega) hform rfl) hentry
          · rw [← harguments]
            exact f.positionsAll_arguments_subset
        · cases h
      · cases h
        exact ⟨rfl, f.pos_mem_positionsAll⟩
    · cases h
      exact ⟨rfl, f.pos_mem_positionsAll⟩

end Within

end CondAttrs
