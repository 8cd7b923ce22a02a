import CondAttrs.Proofs.Lowering.Output

/-!
# Expanding twice

A second expansion finds nothing to do. The output is read as the lowered tokens, and none
of the forms in them is a directive: native attributes have the native name, and faults
are carried by documentation. So no annotation that the second run finds is rewritten, and
its output is its input.

Where an inner annotation at the head of the file has a fault, the attribute that carries
it is an outer one. It leaves the head and stands in front of the first item, which it
does not change.

## Main definitions

* `Form.Foreign`: the form is no directive.

## Main statements

* `Item.parseAll_again`: no annotation is rewritten where directives were exchanged.
* `transform_idempotent`: the second expansion of a file.
* `transform_not_idempotent`: the start of the file has to be steady.
-/

namespace CondAttrs

/-! ## Forms that are no directives -/

/-- The form is no directive. -/
def Form.Foreign (s : Settings) (f : Form) : Prop :=
  f.isDoc = true ∨ f.name ≠ s.directive

theorem Form.Foreign.of_forget {s : Settings} {f g : Form} (h : f.Foreign s)
    (hforget : g.forget = f.forget) : g.Foreign s := by
  rcases h with hdoc | hname
  · left
    rw [← isDoc_forget g, hforget, isDoc_forget, hdoc]
  · right
    rw [← name_forget g, hforget, name_forget]
    exact hname

namespace Attachment

variable {s : Settings}

/-- The annotations that stay are those that are no directives. -/
theorem isRewritten_ofForm_iff {f : Form} {pointer : Text} :
    (ofForm s pointer f).isRewritten = false ↔ f.Foreign s := by
  constructor
  · intro h
    unfold ofForm at h
    split at h
    · rename_i attr hattr
      rcases Attribute.ofForm_eq_ok_iff.1 hattr with ⟨hforeign, -⟩ | ⟨-, _, _, -, -, -, rfl⟩
      · exact hforeign
      · cases h
    · cases h
  · intro h
    have hplain : Attribute.ofForm s pointer f = .ok (.plain f) :=
      Attribute.ofForm_eq_ok_iff.2 (.inl ⟨h, rfl⟩)
    rw [ofForm, hplain]
    rfl

theorem Scanned.isRewritten_iff {a : Attachment} (h : a.Scanned s) :
    a.isRewritten = false ↔ a.form.Foreign s := by
  obtain ⟨pointer, f, -, rfl⟩ := h
  rw [form_ofForm, isRewritten_ofForm_iff]

/-- What annotations are lowered to are no directives. -/
theorem Scanned.foreign_lowered (hnames : s.native ≠ s.directive) (hdoc : s.directive ≠ "doc")
    {a : Attachment} (h : a.Scanned s) : (a.lowered s).Foreign s := by
  cases a with
  | failed form d =>
    right
    rw [lowered, Embed.name_error]
    exact hdoc.symm
  | accepted attr =>
    cases attr with
    | plain form => exact h.isRewritten_iff.1 rfl
    | directive form body =>
      right
      rw [lowered, Body.name_native]
      exact hnames

end Attachment

/-! ## Annotations in front of an item -/

namespace Item

variable {s : Settings} {pointer : Text} {forms : List Form} {tokens : List Token}

/-- Annotations in front are read together with those of the item. -/
theorem scan_front (h : ∀ f ∈ forms, f.Proper) (s : Settings) (pointer : Text)
    (tokens : List Token) :
    Attachment.scan s pointer (forms.flatMap Form.tokens ++ tokens) =
      (Attachment.ofForms s pointer (forms ++ (Form.readAll tokens).1),
        (Form.readAll tokens).2) := by
  rw [Attachment.scan, Form.readAll_flatMap_append h]

/-- An item in which nothing is rewritten stays such an item if annotations that are no
directives are put in front of it. -/
theorem parse_front (hforms : ∀ f ∈ forms, f.Proper ∧ f.Foreign s)
    (h : ∀ a ∈ (parse s pointer tokens).1.attachments, a.isRewritten = false) :
    (parse s pointer (forms.flatMap Form.tokens ++ tokens)).2 = (parse s pointer tokens).2 ∧
      ∀ a ∈ (parse s pointer (forms.flatMap Form.tokens ++ tokens)).1.attachments,
        a.isRewritten = false := by
  have hscan := scan_front (fun f hf => (hforms f hf).1) s pointer tokens
  have hread := Form.readAll_flatMap_append (fun f hf => (hforms f hf).1) tokens
  have hown : (Attachment.scan s pointer tokens).2 = (Form.readAll tokens).2 := rfl
  rcases parse_cases s pointer (forms.flatMap Form.tokens ++ tokens) with
    ⟨hnone, d, -, hparse⟩ | ⟨kind, shape, rest, hselect, htake, hparse⟩
  · rw [hscan] at hnone
    rcases parse_cases s pointer tokens with ⟨-, d', -, hparse'⟩ |
      ⟨kind, shape, rest, hselect, htake, -⟩
    · rw [hparse, hparse', passThrough, passThrough, hread]
      exact ⟨rfl, by simp⟩
    · obtain ⟨e, he⟩ := hnone kind hselect
      rw [← hown, htake] at he
      cases he
  · rw [hscan] at hselect htake
    rcases parse_cases s pointer tokens with ⟨hnone, -⟩ |
      ⟨kind', shape', rest', hselect', htake', hparse'⟩
    · obtain ⟨e, he⟩ := hnone kind hselect
      rw [hown, htake] at he
      cases he
    · rw [hown, hselect] at hselect'
      cases hselect'
      rw [hown, htake] at htake'
      cases htake'
      rw [hparse'] at h
      rw [hparse, hparse', hscan]
      refine ⟨rfl, fun a ha => ?_⟩
      rcases mem_attachments_declared.1 ha with ha | hroster
      · obtain ⟨index, hindex, rfl⟩ := List.mem_mapIdx.1 ha
        rw [Attachment.isRewritten_ofForm_iff]
        rcases List.mem_append.1 (List.getElem_mem hindex) with hf | hf
        · exact (hforms _ hf).2
        · obtain ⟨n, hn, hf⟩ := List.getElem_of_mem hf
          rw [← hf, ← Attachment.isRewritten_ofForm_iff]
          exact h _ (mem_attachments_declared.2 (.inl (List.mem_mapIdx.2 ⟨n, hn, rfl⟩)))
      · exact h a (mem_attachments_declared.2 (.inr hroster))

/-- The same for the first of some items. -/
theorem parseFrom_front (hforms : ∀ f ∈ forms, f.Proper ∧ f.Foreign s) {index : Nat}
    (h : ∀ i ∈ parseFrom s index tokens, ∀ a ∈ i.attachments, a.isRewritten = false) :
    ∀ i ∈ parseFrom s index (forms.flatMap Form.tokens ++ tokens), ∀ a ∈ i.attachments,
      a.isRewritten = false := by
  have hitems : (∀ a ∈ (parse s (pointerOf index) tokens).1.attachments, a.isRewritten = false) ∧
      ∀ i ∈ parseFrom s (index + 1) (parse s (pointerOf index) tokens).2, ∀ a ∈ i.attachments,
        a.isRewritten = false := by
    cases tokens with
    | nil =>
      obtain ⟨d, hnil⟩ := parse_nil s (pointerOf index)
      rw [hnil, parseFrom]
      exact ⟨by simp, by simp⟩
    | cons t rest =>
      rw [parseFrom] at h
      exact List.forall_mem_cons.1 h
  obtain ⟨hrest, hfirst⟩ := parse_front hforms hitems.1
  cases hall : forms.flatMap Form.tokens ++ tokens with
  | nil =>
    rw [parseFrom]
    simp
  | cons u more =>
    rw [hall] at hrest hfirst
    rw [parseFrom, hrest]
    exact List.forall_mem_cons.2 ⟨hfirst, hitems.2⟩

/-! ## Files -/

theorem Renews.attachments {put : Attachment → Form} {base base' : Text} {i i' : Item}
    (h : Renews s put base base' i i') :
    List.Forall₂ (Attachment.Renews s put) i.attachments i'.attachments :=
  List.rel_flatMap h.points fun _ _ hp => hp.attachments

/-- No annotation of a file is rewritten in which annotations were exchanged for such as are
no directives. -/
theorem parseAll_again {put : Attachment → Form} (hput : Replaces s put)
    (hforeign : ∀ a : Attachment, a.Scanned s → (put a).Foreign s) {tokens' : List Token}
    (h : Token.forgetAll tokens' =
      Token.forgetAll ((parseAll s tokens).flatMap (fill fun a => (put a).tokens))) :
    ∀ i ∈ parseAll s tokens', ∀ a ∈ i.attachments, a.isRewritten = false := by
  obtain ⟨index, hfill⟩ := parseAll_fill s (fun a => (put a).tokens) tokens
  rw [hfill] at h
  obtain ⟨forms, rest', hrecurs, hhead, hbehind, hrest⟩ := head_again hput h
  have hforms : ∀ f ∈ forms, f.Proper ∧ f.Foreign s := by
    intro f hf
    obtain ⟨g, hg, hproper, hforget⟩ := exists_of_forall₂ hrecurs hf
    obtain ⟨a, ha, rfl⟩ := List.mem_map.1 hg
    refine ⟨hproper, (hforeign a ?_).of_forget hforget⟩
    exact Attachment.scanned_of_mem
      (fun f hf => (Form.readAll_spec tokens).1 f ((List.takeWhile_sublist _).mem hf)) ha
  -- behind the head everything is found again, what the head loses in front of it
  have hitems : ∀ index', ∀ i ∈ parseFrom s index' (behindHead tokens'), ∀ a ∈ i.attachments,
      a.isRewritten = false := by
    intro index'
    rw [hbehind]
    refine parseFrom_front (fun f hf => hforms f ((List.dropWhile_sublist _).mem hf)) ?_
    intro i' hi' a' ha'
    obtain ⟨i, hi, n, hrenews⟩ := exists_of_forall₂ (parseFrom_again hput hrest) hi'
    obtain ⟨a, ha, hscanned, hforget⟩ := exists_of_forall₂ hrenews.attachments ha'
    rw [hscanned.isRewritten_iff]
    exact (hforeign a (parseFrom_scanned hi ha)).of_forget hforget
  rcases parseAll_cases s tokens' with ⟨-, hparse⟩ | ⟨-, hparse⟩
  · rw [hparse]
    exact hitems 0
  · rw [hparse, hhead]
    refine List.forall_mem_cons.2 ⟨fun a ha => ?_, hitems 1⟩
    rw [attachments_enclosing] at ha
    obtain ⟨index, hindex, rfl⟩ := List.mem_mapIdx.1 ha
    rw [Attachment.isRewritten_ofForm_iff]
    exact (hforms _ ((List.takeWhile_sublist _).mem (List.getElem_mem hindex))).2

end Item

/-- A file in which nothing is rewritten stays as it is, without errors. -/
theorem transform_of_isRewritten {s : Settings} {t : Text} {stream : TokenStream}
    (h : tokenize t = .ok stream)
    (hitems : ∀ i ∈ Item.parseAll s stream.tokens, ∀ a ∈ i.attachments, a.isRewritten = false) :
    (transform s t).text = t ∧ ∀ d ∈ (transform s t).diagnostics, d.isError = false := by
  rw [transform_eq s h]
  constructor
  · have hlower : ∀ i ∈ Item.parseAll s stream.tokens, i.lower s = i.source := by
      intro i hi
      rw [Item.lower_eq_fill]
      exact Item.fill_congr fun a ha => Attachment.lower_eq_source (hitems i hi a ha) s
    show _ ++ stream.trailing = t
    rw [List.flatMap_congr hlower]
    exact Item.source_parseAll h s
  · intro d hd
    obtain ⟨i, hi, hd⟩ := List.mem_flatMap.1 hd
    cases i with
    | unsupported tokens d' =>
      simp only [Item.report] at hd
      split at hd
      · rw [List.mem_singleton.1 hd]
        exact Item.isError_of_parseAll hi
      · cases hd
    | declared declaration =>
      rw [Item.report, Item.annotationFaults_eq_nil (hitems _ hi)] at hd
      · cases hd
      · intro _ _ h
        cases h
    | enclosing pointer attachments =>
      rw [Item.report, Item.annotationFaults_eq_nil (hitems _ hi)] at hd
      · cases hd
      · intro _ _ h
        cases h

/-- The output of a file is a file. Its expansion is itself, and there are no errors in it. -/
theorem transform_idempotent {s : Settings} (hnative : Settings.isIdentifier s.native = true)
    (herror : Settings.isIdentifier s.errorName = true) (hnames : s.native ≠ s.directive)
    (hdoc : s.directive ≠ "doc") {t : Text} {stream : TokenStream}
    (htokenize : tokenize t = .ok stream) (hstart : Trivia.steadyStart t = true)
    (hquiet : ∀ i ∈ Item.parseAll s stream.tokens, ∀ a ∈ i.attachments, a.quiet = true) :
    (∃ stream', tokenize (transform s t).text = .ok stream') ∧
      (transform s (transform s t).text).text = (transform s t).text ∧
      ∀ d ∈ (transform s (transform s t).text).diagnostics, d.isError = false := by
  obtain ⟨stream', hout, -, htokens⟩ :=
    tokenize_transform htokenize hquiet hnative herror hstart
  have hitems := Item.parseAll_again (replaces_lowered s)
    (fun a ha => ha.foreign_lowered hnames hdoc) htokens
  exact ⟨⟨stream', hout⟩, transform_of_isRewritten hout hitems⟩

/-- Behind an interpreter line with a comment, a faulty inner directive, a directive with
documentation and a directive nested in it, a faulty one at a field, and one that is passed
over. -/
theorem transform_idempotent_mixed :
    let t : Text :=
      "#! /* c */ sh\n#![cfg_attrs] #![cfg_attrs(a, b)]\nenum E \x7b #[cfg_attrs(c, /// d\n #[e], " ++
        "#[cfg_attrs(f, g)])] V(#[cfg_attrs()] u8) \x7d impl X \x7b #[cfg_attrs(a, b)] \x7d"
    let out := (transform {} t).text
    out ≠ t ∧ (∃ stream, tokenize out = .ok stream) ∧ (transform {} out).text = out ∧
      ∀ d ∈ (transform {} out).diagnostics, d.isError = false := by
  intro t out
  obtain ⟨stream, htokenize, hquiet⟩ := @exists_of_tokenize t
    (fun stream => (Item.parseAll {} stream.tokens).all fun i => i.attachments.all Attachment.quiet)
    (by decide +kernel)
  simp only [List.all_eq_true] at hquiet
  exact ⟨by decide +kernel, transform_idempotent (by decide) (by decide) (by decide) (by decide)
    htokenize (by decide +kernel) hquiet⟩

/-- The start has to be steady. An interpreter line that leaves a comment open is none any more
when the end of the comment has gone. Then the output cannot be read, or the line is read as
the marks of an attribute behind the comment, which the second run rewrites. Two pairs of marks
are taken for an interpreter line when a line end has gone. -/
theorem transform_not_idempotent :
    (["#! /*\n#[cfg_attrs(a, b // */ x\n)] struct B;",
        "#! /*\n#[cfg_attrs(a, b // */ x\n)] struct B; // */\n[cfg_attrs(c, d)]",
        "#!#! x; #[cfg_attrs(a, // c\n[y])] struct S \x7b\n\x7d\n"] : List Text).Forall fun t =>
      ∃ stream, tokenize t = .ok stream ∧
        (∀ i ∈ Item.parseAll {} stream.tokens, ∀ a ∈ i.attachments, a.quiet = true) ∧
        ¬ ((∃ stream', tokenize (transform {} t).text = .ok stream') ∧
          (transform {} (transform {} t).text).text = (transform {} t).text) := by
  have hall : ∀ t ∈ (["#! /*\n#[cfg_attrs(a, b // */ x\n)] struct B;",
      "#! /*\n#[cfg_attrs(a, b // */ x\n)] struct B; // */\n[cfg_attrs(c, d)]",
      "#!#! x; #[cfg_attrs(a, // c\n[y])] struct S \x7b\n\x7d\n"] : List Text),
      (tokenize t).toOption.any (fun stream => (Item.parseAll {} stream.tokens).all fun i =>
        i.attachments.all Attachment.quiet) = true ∧
      ((tokenize (transform {} t).text).toOption = none ∨
        (transform {} (transform {} t).text).text ≠ (transform {} t).text) := by
    decide +kernel
  refine List.forall_iff_forall_mem.2 fun t ht => ?_
  obtain ⟨hquiet, hout⟩ := hall t ht
  obtain ⟨stream, htokenize, hquiet⟩ := exists_of_tokenize hquiet
  simp only [List.all_eq_true] at hquiet
  refine ⟨stream, htokenize, hquiet, ?_⟩
  rintro ⟨⟨stream', hstream'⟩, hsame⟩
  rcases hout with hnone | hne
  · rw [hstream'] at hnone
    cases hnone
  · exact hne hsame

end CondAttrs
