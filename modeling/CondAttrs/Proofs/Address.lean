import CondAttrs.Proofs.Reading.Blame
import CondAttrs.Proofs.Report

/-!
# Where a diagnostic points

Every item, member and annotation is numbered in the list that it stands in, and its pointer is made
of these numbers. No two attachment points of a file have the same pointer. An error points at an
annotation of an attachment point or, through the directives around it, at an attribute nested in
that annotation; no step on the way to the point is called like the steps behind it, so the pointer
falls apart in one way. A warning points at its item.

## Main definitions

* `Point.At`: a point stands at the end of some steps and numbers its annotations.
* `Point.Placed`: points stand at different places under some steps.
* `Item.Numbered`: an item has a given index.

## Main statements

* `Item.parseAll_numbered`: the points of an item of a file are placed under the item.
* `transform_pointers`: what the diagnostics about a file point at.
-/

namespace CondAttrs

/-! ## Ways that do not lead through annotations -/

/-- No step leads into a list of annotations. -/
def PlainSteps (place : List (Text × Nat)) : Prop :=
  ∀ step ∈ place, step.1 ≠ "annotations"

/-- The way to a point can be told from the way behind it. -/
theorem PlainSteps.cancel {place place' : List (Text × Nat)} {index index' : Nat}
    {path path' : List Nat} (h : PlainSteps place) (h' : PlainSteps place')
    (heq : place ++ nestedSteps (index :: path) = place' ++ nestedSteps (index' :: path')) :
    place = place' := by
  have htake : ∀ (way : List (Text × Nat)) (index : Nat) (path : List Nat), PlainSteps way →
      (way ++ nestedSteps (index :: path)).takeWhile (·.1 ≠ ("annotations" : Text)) = way := by
    intro way index path hway
    rw [List.takeWhile_append_of_pos fun step hstep => decide_eq_true (hway step hstep)]
    exact List.append_nil way
  rw [← htake place index path h, heq, htake place' index' path' h']

/-! ## Points -/

namespace Point

/-- The point stands at the end of the steps, and its annotations are numbered under it. -/
structure At (s : Settings) (steps : List (Text × Nat)) (p : Point) : Prop where
  pointer_eq : p.pointer = Pointer.ofSteps steps
  numbered : ∃ forms, p.attachments = Attachment.ofForms s p.pointer forms

/-- The points stand at different places under the given steps. -/
structure Placed (s : Settings) (base : List (Text × Nat)) (points : List Point) : Prop where
  distinct : points.Pairwise fun p q => p.pointer ≠ q.pointer
  under : ∀ p ∈ points, ∃ place, PlainSteps place ∧ p.At s (base ++ place)

/-- The points are placed under the steps and none of them stands at their end. -/
structure Inside (s : Settings) (base : List (Text × Nat)) (points : List Point) : Prop
    extends Placed s base points where
  proper : ∀ p ∈ points, p.pointer ≠ Pointer.ofSteps base

variable {s : Settings} {base : List (Text × Nat)}

theorem at_scan (site : Site) (name : Text) (steps : List (Text × Nat)) (tokens : List Token) :
    Point.At s steps ⟨site, name, Pointer.ofSteps steps,
      (Attachment.scan s (Pointer.ofSteps steps) tokens).1⟩ :=
  ⟨rfl, _, rfl⟩

theorem inside_nil : Inside s base [] where
  distinct := .nil
  under _ hp := absurd hp List.not_mem_nil
  proper _ hp := absurd hp List.not_mem_nil

/-- A point and the points inside of what it belongs to. -/
theorem Inside.cons {p : Point} {points : List Point} (h : Inside s base points)
    (hp : p.At s base) : Placed s base (p :: points) := by
  refine ⟨List.pairwise_cons.2 ⟨fun q hq heq => h.proper q hq ?_, h.distinct⟩, fun q hq => ?_⟩
  · rw [← heq, hp.pointer_eq]
  rcases List.mem_cons.1 hq with rfl | hq
  · refine ⟨[], fun _ hstep => absurd hstep List.not_mem_nil, ?_⟩
    rwa [List.append_nil]
  · exact h.under q hq

theorem placed_singleton {p : Point} (hp : p.At s base) : Placed s base [p] :=
  inside_nil.cons hp

/-- A point that is placed under a step has the step in its pointer. -/
theorem Placed.pointer_eq {step : Text × Nat} {points : List Point} {p : Point}
    (h : Placed s (base ++ [step]) points) (hp : p ∈ points) :
    ∃ place, PlainSteps place ∧ p.pointer = Pointer.ofSteps (base ++ step :: place) := by
  obtain ⟨place, hplain, hat⟩ := h.under p hp
  refine ⟨place, hplain, ?_⟩
  rw [hat.pointer_eq, List.append_assoc]
  rfl

/-- Points that are placed under different steps have different pointers. -/
theorem Placed.ne {step step' : Text × Nat} {points points' : List Point} {p q : Point}
    (h : Placed s (base ++ [step]) points) (h' : Placed s (base ++ [step']) points')
    (hp : p ∈ points) (hq : q ∈ points') (hne : step ≠ step') : p.pointer ≠ q.pointer := by
  obtain ⟨place, -, hpointer⟩ := h.pointer_eq hp
  obtain ⟨place', -, hpointer'⟩ := h'.pointer_eq hq
  rw [hpointer, hpointer']
  intro heq
  have hsteps := List.append_cancel_left (Pointer.ofSteps_injective heq)
  exact hne (List.cons.inj hsteps).1

end Point

/-! ## Members -/

namespace Members

variable {s : Settings} {base : List (Text × Nat)}

/-- Members are placed under their name and index. -/
theorem inside_ofChunks {α : Type} {points : α → List Point} {g : Token} {d : Delimiter}
    {name : Text} {chunks : List (List Token)} {read : Nat → Text → List Token → α}
    (hname : name ≠ "annotations")
    (h : ∀ index chunk, Point.Placed s (base ++ [(name, index)])
      (points (read index (Pointer.ofSteps (base ++ [(name, index)])) chunk))) :
    Point.Inside s base
      ((ofChunks g d (Pointer.ofSteps base) name chunks read).members.flatMap points) := by
  have hmember : ∀ a ∈ (ofChunks g d (Pointer.ofSteps base) name chunks read).members,
      ∃ index, Point.Placed s (base ++ [(name, index)]) (points a) := by
    intro a ha
    obtain ⟨index, hindex, rfl⟩ := List.mem_mapIdx.1 ha
    rw [Pointer.entry_ofSteps]
    exact ⟨index, h index _⟩
  have hunder : ∀ p ∈ (ofChunks g d (Pointer.ofSteps base) name chunks read).members.flatMap points,
      ∃ index place, PlainSteps place ∧ p.At s (base ++ (name, index) :: place) := by
    intro p hp
    obtain ⟨a, ha, hp⟩ := List.mem_flatMap.1 hp
    obtain ⟨index, hplaced⟩ := hmember a ha
    obtain ⟨place, hplain, hat⟩ := hplaced.under p hp
    rw [List.append_assoc] at hat
    exact ⟨index, place, hplain, hat⟩
  refine ⟨⟨List.pairwise_flatMap.2 ⟨fun a ha => ?_, ?_⟩, fun p hp => ?_⟩, fun p hp heq => ?_⟩
  · obtain ⟨index, hplaced⟩ := hmember a ha
    exact hplaced.distinct
  · rw [List.pairwise_iff_getElem]
    intro i j hi hj hij p hp q hq
    simp only [ofChunks, List.getElem_mapIdx, Pointer.entry_ofSteps] at hp hq
    refine (h i _).ne (h j _) hp hq ?_
    rintro ⟨⟩
    exact Nat.lt_irrefl _ hij
  · obtain ⟨index, place, hplain, hat⟩ := hunder p hp
    refine ⟨(name, index) :: place, fun step hstep => ?_, hat⟩
    rcases List.mem_cons.1 hstep with rfl | hstep
    · exact hname
    · exact hplain step hstep
  · obtain ⟨index, place, -, hat⟩ := hunder p hp
    rw [hat.pointer_eq] at heq
    exact List.cons_ne_nil _ _ (List.append_right_eq_self.1 (Pointer.ofSteps_injective heq))

theorem inside_fields (g : Token) (d : Delimiter) :
    Point.Inside s base ((fields s (Pointer.ofSteps base) g d).members.map Member.point) := by
  rw [List.map_eq_flatMap]
  exact inside_ofChunks (by decide) fun index chunk =>
    Point.placed_singleton (Point.at_scan _ _ _ _)

theorem inside_traitMembers (g : Token) :
    Point.Inside s base ((traitMembers s (Pointer.ofSteps base) g).members.map Member.point) := by
  rw [List.map_eq_flatMap]
  exact inside_ofChunks (by decide) fun index chunk =>
    Point.placed_singleton (Point.at_scan _ _ _ _)

theorem placed_variantOf (chunk : List Token) :
    Point.Placed s base (variantOf s (Pointer.ofSteps base) chunk).points := by
  have hfields : ∀ tokens, Point.Inside s base
      ((variantFields s (Pointer.ofSteps base) tokens).1.elim [] fun fields : Members Member =>
        fields.members.map Member.point) := by
    intro tokens
    fun_cases variantFields s (Pointer.ofSteps base) tokens with
    | case1 => exact Point.inside_nil
    | case2 t rest hbrace => exact inside_fields t .brace
    | case3 t rest hbrace hparen => exact inside_fields t .paren
    | case4 t rest hbrace hparen => exact Point.inside_nil
  exact (hfields _).cons (Point.at_scan _ _ _ _)

theorem inside_variants (g : Token) :
    Point.Inside s base ((variants s (Pointer.ofSteps base) g).members.flatMap Variant.points) :=
  inside_ofChunks (by decide) fun _ chunk => placed_variantOf chunk

end Members

/-- The members of a declaration are placed under it. -/
theorem Shape.inside_take {s : Settings} (base : List (Text × Nat)) {kind : Kind}
    {tokens rest : List Token} {shape : Shape}
    (h : Shape.take s (Pointer.ofSteps base) kind tokens = .ok (shape, rest)) :
    Point.Inside s base shape.points := by
  rcases take_tokens h with ⟨hroster, -, -⟩ | ⟨reading, g, -, hroster, -⟩
  · rw [points, hroster]
    exact Point.inside_nil
  rw [points, hroster]
  cases reading with
  | fields d => exact Members.inside_fields g d
  | variants => exact Members.inside_variants g
  | traitMembers => exact Members.inside_traitMembers g

/-! ## Items -/

namespace Item

variable {s : Settings}

/-- The item has the given index: its points are placed under it, and what is said about the item
as a whole points at it. -/
structure Numbered (s : Settings) (index : Nat) (i : Item) : Prop where
  placed : Point.Placed s [("items", index)] i.points
  reason : ∀ d, i.reason? = some d → d.pointer = pointerOf index

theorem numbered_unsupported {index : Nat} {tokens : List Token} {d : Diagnostic}
    (h : d.pointer = pointerOf index) : Numbered s index (.unsupported tokens d) := by
  refine ⟨Point.inside_nil.toPlaced, ?_⟩
  rintro _ ⟨⟩
  exact h

theorem parse_numbered (index : Nat) (tokens : List Token) :
    Numbered s index (parse s (pointerOf index) tokens).1 := by
  simp only [parse]
  split
  · exact numbered_unsupported rfl
  split
  · exact numbered_unsupported rfl
  · rename_i htake
    have hinside := Shape.inside_take [("items", index)] htake
    refine ⟨?_, fun d hd => absurd hd (by simp [reason?])⟩
    rw [points_declared]
    exact hinside.cons (Point.at_scan _ _ [("items", index)] tokens)

theorem parseFrom_numbered {first index : Nat} {tokens : List Token} {i : Item}
    (h : (parseFrom s first tokens)[index]? = some i) : Numbered s (first + index) i := by
  fun_induction parseFrom s first tokens generalizing index with
  | case1 => cases h
  | case2 first t rest result =>
    rename_i ih
    cases index with
    | zero =>
      cases h
      exact parse_numbered first (t :: rest)
    | succ index =>
      have hrest := ih h
      rwa [Nat.add_assoc, Nat.add_comm 1 index] at hrest

/-- The items of a file are numbered, the annotations at its head as the first one. -/
theorem parseAll_numbered {tokens : List Token} {index : Nat} {i : Item}
    (h : (parseAll s tokens)[index]? = some i) : Numbered s index i := by
  rcases parseAll_cases s tokens with ⟨-, hparse⟩ | ⟨-, hparse⟩
  · rw [hparse] at h
    have hrest := parseFrom_numbered h
    rwa [Nat.zero_add] at hrest
  rw [hparse] at h
  cases index with
  | zero =>
    cases h
    exact ⟨Point.placed_singleton ⟨rfl, _, rfl⟩, fun d hd => absurd hd (by simp [reason?])⟩
  | succ index =>
    have hrest := parseFrom_numbered (h : (parseFrom s 1 _)[index]? = some i)
    rwa [Nat.add_comm 1 index] at hrest

end Item

/-! ## Diagnostics -/

/-- The diagnostic points at an annotation of the place that the steps lead to, or into it. -/
def Diagnostic.Behind (steps : List (Text × Nat)) (d : Diagnostic) : Prop :=
  ∃ index path, d.pointer = Pointer.ofSteps (steps ++ nestedSteps (index :: path))

namespace Point

variable {s : Settings} {steps : List (Text × Nat)} {p : Point}

/-- The fault of an annotation points at the annotation, or at an attribute nested in it. -/
theorem At.blames (h : p.At s steps) {index : Nat} {a : Attachment} {d : Diagnostic}
    (ha : p.attachments[index]? = some a) (hd : a.fault? = some d) :
    ∃ f path, a = .failed f d ∧ f.FaultAt s false path d.fault d.pos ∧
      d.pointer = p.pointer ++ Pointer.ofSteps (nestedSteps (index :: path)) := by
  obtain ⟨forms, hforms⟩ := h.numbered
  rw [hforms, Attachment.ofForms, List.getElem?_mapIdx, Option.map_eq_some_iff] at ha
  obtain ⟨f, -, rfl⟩ := ha
  rw [Attachment.ofForm] at hd ⊢
  split at hd
  · cases hd
  rename_i hform
  cases hd
  obtain ⟨path, hfault, hpointer⟩ := Attribute.blames_of_ofForm false hform
  refine ⟨f, path, rfl, hfault, ?_⟩
  rw [hpointer, Pointer.entry_eq, List.append_assoc, ← Pointer.ofSteps_append]
  rfl

theorem At.behind (h : p.At s steps) {index : Nat} {a : Attachment} {d : Diagnostic}
    (ha : p.attachments[index]? = some a) (hd : a.fault? = some d) :
    ∃ path, d.pointer = Pointer.ofSteps (steps ++ nestedSteps (index :: path)) := by
  obtain ⟨f, path, -, -, hpointer⟩ := h.blames ha hd
  exact ⟨path, by rw [hpointer, h.pointer_eq, Pointer.ofSteps_append]⟩

/-- The faults at one point have different pointers. -/
theorem At.pairwise_faults (h : p.At s steps) :
    (p.attachments.filterMap Attachment.fault?).Pairwise fun d d' => d.pointer ≠ d'.pointer := by
  rw [List.pairwise_filterMap, List.pairwise_iff_getElem]
  intro i j hi hj hij d hd d' hd' heq
  obtain ⟨path, hpointer⟩ := h.behind (List.getElem?_eq_getElem hi) hd
  obtain ⟨path', hpointer'⟩ := h.behind (List.getElem?_eq_getElem hj) hd'
  rw [hpointer, hpointer'] at heq
  have hsteps := List.append_cancel_left (Pointer.ofSteps_injective heq)
  have hindex : i = j := congrArg Prod.snd (List.cons.inj hsteps).1
  omega

theorem At.behind_of_mem (h : p.At s steps) {d : Diagnostic}
    (hd : d ∈ p.attachments.filterMap Attachment.fault?) : d.Behind steps := by
  obtain ⟨a, ha, hd⟩ := List.mem_filterMap.1 hd
  obtain ⟨index, hindex⟩ := List.mem_iff_getElem?.1 ha
  exact ⟨index, h.behind hindex hd⟩

/-- The faults at points of different places have different pointers. -/
theorem Placed.pairwise_faults {base : List (Text × Nat)} {points : List Point}
    (h : Placed s base points) :
    ((points.flatMap Point.attachments).filterMap Attachment.fault?).Pairwise
      fun d d' => d.pointer ≠ d'.pointer := by
  rw [List.filterMap_flatMap, List.pairwise_flatMap]
  constructor
  · intro p hp
    obtain ⟨place, -, hat⟩ := h.under p hp
    exact hat.pairwise_faults
  refine h.distinct.imp_of_mem fun {p q} hp hq hne d hd d' hd' heq => hne ?_
  obtain ⟨place, hplain, hat⟩ := h.under p hp
  obtain ⟨place', hplain', hat'⟩ := h.under q hq
  obtain ⟨number, path, hpointer⟩ := hat.behind_of_mem hd
  obtain ⟨index', path', hpointer'⟩ := hat'.behind_of_mem hd'
  rw [hpointer, hpointer', List.append_assoc, List.append_assoc] at heq
  have hsteps := List.append_cancel_left (Pointer.ofSteps_injective heq)
  rw [hat.pointer_eq, hat'.pointer_eq, hplain.cancel hplain' hsteps]

end Point

namespace Item

variable {s : Settings} {index : Nat} {i : Item}

/-- What is reported about an item that is not passed through. -/
theorem report_eq (h : i.reason? = none) (warn : Bool) :
    i.report warn = i.attachments.filterMap Attachment.fault? := by
  cases i with
  | declared d => exact annotationFaults_eq _
  | enclosing pointer attachments => exact annotationFaults_eq _
  | unsupported tokens d => cases h

theorem Numbered.pairwise_report (h : Numbered s index i) (warn : Bool) :
    (i.report warn).Pairwise fun d d' => d.pointer ≠ d'.pointer := by
  cases hreason : i.reason? with
  | none =>
    rw [report_eq hreason]
    exact h.placed.pairwise_faults
  | some d =>
    cases i with
    | declared _ => cases hreason
    | enclosing _ _ => cases hreason
    | unsupported tokens d => cases warn <;> simp [report]

/-- A report about an item is the reason why it is passed through, or the fault of one of its
annotations. -/
theorem mem_report {warn : Bool} {d : Diagnostic} (hd : d ∈ i.report warn) :
    (∃ tokens, i = .unsupported tokens d) ∨
      ∃ p ∈ i.points, d ∈ p.attachments.filterMap Attachment.fault? := by
  cases hreason : i.reason? with
  | none =>
    rw [report_eq hreason, attachments, List.filterMap_flatMap] at hd
    exact .inr (List.mem_flatMap.1 hd)
  | some reason =>
    cases i with
    | declared _ => cases hreason
    | enclosing _ _ => cases hreason
    | unsupported tokens d' =>
      have heq : d = d' := by
        cases warn <;> simp [report] at hd
        exact hd
      exact .inl ⟨tokens, by rw [heq]⟩

/-- Every report about an item has the number of the item in its pointer. -/
theorem Numbered.pointer_eq (h : Numbered s index i) {warn : Bool} {d : Diagnostic}
    (hd : d ∈ i.report warn) :
    ∃ steps, d.pointer = Pointer.ofSteps (("items", index) :: steps) := by
  rcases mem_report hd with ⟨tokens, rfl⟩ | ⟨p, hp, hd⟩
  · exact ⟨[], h.reason d rfl⟩
  · obtain ⟨place, -, hat⟩ := h.placed.under p hp
    obtain ⟨number, path, hpointer⟩ := hat.behind_of_mem hd
    exact ⟨place ++ nestedSteps (number :: path), by rw [hpointer, List.append_assoc]; rfl⟩

/-- Things of different items have different pointers. -/
theorem pairwise_numbered {α : Type} {items : List Item} {of : Item → List α} {pointer : α → Text}
    (hof : ∀ (index : Nat) i, items[index]? = some i →
      (of i).Pairwise fun a b => pointer a ≠ pointer b)
    (hpointer : ∀ (index : Nat) i, items[index]? = some i → ∀ a ∈ of i,
      ∃ steps, pointer a = Pointer.ofSteps (("items", index) :: steps)) :
    ((items.flatMap of).map pointer).Nodup := by
  rw [List.Nodup, List.pairwise_map, List.pairwise_flatMap]
  constructor
  · intro i hi
    obtain ⟨index, hindex⟩ := List.mem_iff_getElem?.1 hi
    exact hof index i hindex
  rw [List.pairwise_iff_getElem]
  intro j k hj hk hjk a ha b hb heq
  obtain ⟨steps, hsteps⟩ := hpointer j _ (List.getElem?_eq_getElem hj) a ha
  obtain ⟨steps', hsteps'⟩ := hpointer k _ (List.getElem?_eq_getElem hk) b hb
  rw [hsteps, hsteps'] at heq
  have hindex : j = k :=
    congrArg Prod.snd (List.cons.inj (Pointer.ofSteps_injective heq)).1
  omega

end Item

/-! ## Files -/

/-- No two diagnostics about a file have the same pointer, nor do two of its attachment points. A
warning points at its item. An error points at the annotation that it replaces or, by the indices
that lead from directive to directive, at the nested attribute that is at fault. -/
theorem transform_pointers {s : Settings} {t : Text} {stream : TokenStream}
    (htokenize : tokenize t = .ok stream) :
    let items := Item.parseAll s stream.tokens
    let diagnostics := (transform s t).diagnostics
    (diagnostics.map Diagnostic.pointer).Nodup ∧
      ((items.flatMap Item.points).map Point.pointer).Nodup ∧
      (∀ d ∈ diagnostics, d.severity = .warning → ∃ index tokens,
        items[index]? = some (.unsupported tokens d) ∧
        d.pointer = Pointer.ofSegments ["items", Text.decimal index]) ∧
      ∀ d ∈ diagnostics, d.severity = .error → ∃ item ∈ items, ∃ point ∈ item.points,
        ∃ index f path, point.attachments[index]? = some (.failed f d) ∧
          f.FaultAt s false path d.fault d.pos ∧
          d.pointer = point.pointer ++ Pointer.ofSteps (nestedSteps (index :: path)) := by
  intro items diagnostics
  have hnumbered : ∀ index i, items[index]? = some i → Item.Numbered s index i :=
    fun index i hi => Item.parseAll_numbered hi
  have hdiagnostics : diagnostics = items.flatMap fun i =>
      i.report (s.warnUnsupported && i.mentionsDirective s) := by
    show (transform s t).diagnostics = _
    rw [transform_eq s htokenize]
  have hreport : ∀ d ∈ diagnostics, ∃ (index : Nat) (i : Item), items[index]? = some i ∧
      ((∃ tokens, i = .unsupported tokens d) ∧ d.severity = .warning ∨
        (∃ p ∈ i.points, d ∈ p.attachments.filterMap Attachment.fault?) ∧
          d.severity = .error) := by
    intro d hd
    rw [hdiagnostics] at hd
    obtain ⟨i, hi, hd⟩ := List.mem_flatMap.1 hd
    obtain ⟨index, hindex⟩ := List.mem_iff_getElem?.1 hi
    refine ⟨index, i, hindex, ?_⟩
    rcases Item.mem_report hd with ⟨tokens, rfl⟩ | ⟨p, hp, hd⟩
    · have hwarning := Item.isError_of_parseAll hi
      exact .inl ⟨⟨tokens, rfl⟩, Diagnostic.isError_eq_false_iff.1 hwarning⟩
    · obtain ⟨a, ha, hfault⟩ := List.mem_filterMap.1 hd
      have hscanned := Item.parseAll_scanned hi (List.mem_flatMap.2 ⟨p, hp, ha⟩)
      exact .inr ⟨⟨p, hp, hd⟩, of_decide_eq_true (hscanned.within hfault).1⟩
  refine ⟨?_, ?_, fun d hd hseverity => ?_, fun d hd hseverity => ?_⟩
  · rw [hdiagnostics]
    exact Item.pairwise_numbered (fun index i hi => (hnumbered index i hi).pairwise_report _)
      fun index i hi d hd => (hnumbered index i hi).pointer_eq hd
  · refine Item.pairwise_numbered (fun index i hi => (hnumbered index i hi).placed.distinct)
      fun index i hi p hp => ?_
    obtain ⟨place, -, hat⟩ := (hnumbered index i hi).placed.under p hp
    exact ⟨place, hat.pointer_eq⟩
  · obtain ⟨index, i, hi, ⟨⟨tokens, rfl⟩, -⟩ | ⟨-, herror⟩⟩ := hreport d hd
    · exact ⟨index, tokens, hi, (hnumbered index _ hi).reason d rfl⟩
    · rw [hseverity] at herror
      cases herror
  · obtain ⟨index, i, hi, ⟨-, hwarning⟩ | ⟨⟨p, hp, hfault⟩, -⟩⟩ := hreport d hd
    · rw [hseverity] at hwarning
      cases hwarning
    · obtain ⟨a, ha, hd⟩ := List.mem_filterMap.1 hfault
      obtain ⟨number, hannotation⟩ := List.mem_iff_getElem?.1 ha
      obtain ⟨place, -, hat⟩ := (hnumbered index i hi).placed.under p hp
      obtain ⟨f, path, rfl, hblames⟩ := hat.blames hannotation hd
      exact ⟨i, List.mem_of_getElem? hi, p, hp, number, f, path, hannotation, hblames⟩

/-- A warning about the first item; a fault in a directive that is the second entry of another one,
at a field of a variant; and one at the member of a trait. -/
theorem transform_pointers_nested :
    let t : Text :=
      "impl X \x7b #[cfg_attrs] \x7d\n" ++
        "enum E \x7b A(#[a] #[cfg_attrs(b, c, #[cfg_attrs(d)])] u8) \x7d\n" ++
        "trait T \x7b #[cfg_attrs] fn f(); \x7d"
    (transform {} t).diagnostics.map (fun d => (d.severity, d.pointer)) =
        ([(.warning, "/items/0"),
          (.error, "/items/1/variants/0/fields/0/annotations/1/annotations/1"),
          (.error, "/items/2/members/0/annotations/0")] : List (Severity × Text)) ∧
      ((transform {} t).diagnostics.map Diagnostic.pointer).Nodup ∧
      ∃ stream, tokenize t = .ok stream ∧
        ∀ d ∈ (transform {} t).diagnostics, d.severity = .error →
          ∃ item ∈ Item.parseAll {} stream.tokens, ∃ point ∈ item.points,
            ∃ index f path, point.attachments[index]? = some (.failed f d) ∧
              f.FaultAt {} false path d.fault d.pos ∧
              d.pointer = point.pointer ++ Pointer.ofSteps (nestedSteps (index :: path)) := by
  intro t
  obtain ⟨stream, htokenize, -⟩ := @exists_of_tokenize t (fun _ => true) (by decide +kernel)
  obtain ⟨hdistinct, -, -, herrors⟩ := @transform_pointers {} t stream htokenize
  exact ⟨by decide +kernel, hdistinct, stream, htokenize, herrors⟩

end CondAttrs
