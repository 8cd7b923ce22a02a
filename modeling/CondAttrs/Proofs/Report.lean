import CondAttrs.Proofs.Frame
import CondAttrs.Proofs.Reading.InOrder
import CondAttrs.Proofs.Reading.Refuse
import CondAttrs.Proofs.Reading.Reread

/-!
# What is reported about a file

The errors of a file are the faults of its annotations, one for each annotation that failed, and
they are reported in the order of the text: a fault is placed at a token of its annotation, and
annotations follow one another. Anything else that is reported is a warning that an item was
passed through.

## Main definitions

* `Item.reason?`: why an item is passed through.

## Main statements

* `Attachment.Scanned.within`: the fault of an annotation is placed in the annotation.
* `transform_diagnostics`: what is reported about a file.
-/

namespace CondAttrs

/-! ## Errors and warnings -/

theorem Diagnostic.isError_eq_false_iff {d : Diagnostic} :
    d.isError = false ↔ d.severity = .warning := by
  rw [isError]
  cases d.severity <;> decide

theorem Expansion.ok_iff {e : Expansion} :
    e.ok = true ↔ e.diagnostics.filter Diagnostic.isError = [] := by
  rw [ok, Bool.not_eq_true', List.any_eq_false, List.filter_eq_nil_iff]

/-! ## Annotations -/

namespace Attachment

/-- The fault of an annotation is an error at one of its tokens. -/
theorem Scanned.within {s : Settings} {a : Attachment} {d : Diagnostic} (h : a.Scanned s)
    (hd : a.fault? = some d) : d.Within a.tokens := by
  obtain ⟨pointer, f, -, rfl⟩ := h
  rw [tokens, form_ofForm]
  rw [ofForm] at hd
  split at hd
  · cases hd
  · rename_i herror
    cases hd
    exact Attribute.within_of_ofForm herror

/-- If the tokens of annotations grow in position, so do their faults. -/
theorem pairwise_faults {l : List Attachment}
    (h : (l.flatMap fun a => Token.positionsAll a.tokens).Pairwise (· < ·))
    (hwithin : ∀ a ∈ l, ∀ d, a.fault? = some d → d.Within a.tokens) :
    ((l.filterMap fault?).map Diagnostic.pos).Pairwise (· < ·) := by
  rw [List.pairwise_map, List.pairwise_filterMap]
  refine (List.pairwise_flatMap.1 h).2.imp_of_mem fun {a a'} ha ha' hlt d hd d' hd' => ?_
  exact hlt _ (hwithin a ha d hd).2 _ (hwithin a' ha' d' hd').2

end Attachment

/-! ## Items -/

namespace Item

/-- Why the item is passed through, if it is. -/
def reason? : Item → Option Diagnostic
  | unsupported _ d => some d
  | _ => none

/-- The errors among the reports about an item are the faults of its annotations. Any other is the
reason why the item is passed through. -/
theorem filter_report {i : Item} (warn : Bool)
    (hfaults : ∀ a ∈ i.attachments, ∀ d, a.fault? = some d → d.isError = true)
    (hreason : ∀ d, i.reason? = some d → d.isError = false) :
    (i.report warn).filter Diagnostic.isError = i.attachments.filterMap Attachment.fault? ∧
      ((i.report warn).filter (!·.isError)).Sublist i.reason?.toList := by
  have hannotations : i.report warn = i.attachments.filterMap Attachment.fault? →
      (i.report warn).filter Diagnostic.isError = i.attachments.filterMap Attachment.fault? ∧
        ((i.report warn).filter (!·.isError)).Sublist i.reason?.toList := by
    intro hreport
    have herror : ∀ d ∈ i.report warn, d.isError = true := by
      intro d hd
      rw [hreport] at hd
      obtain ⟨a, ha, hfault⟩ := List.mem_filterMap.1 hd
      exact hfaults a ha d hfault
    have hnone : (i.report warn).filter (!·.isError) = [] :=
      List.filter_eq_nil_iff.2 fun d hd => by simp [herror d hd]
    rw [hnone, List.filter_eq_self.2 herror]
    exact ⟨hreport, List.nil_sublist _⟩
  cases i with
  | declared d => exact hannotations (annotationFaults_eq _)
  | enclosing pointer attachments => exact hannotations (annotationFaults_eq _)
  | unsupported tokens d =>
    have hd : d.isError = false := hreason d rfl
    cases warn <;> simp [report, reason?, hd]

/-- The same for all items of a file. -/
theorem filter_reports {items : List Item} (warn : Item → Bool)
    (hfaults : ∀ a ∈ items.flatMap attachments, ∀ d, a.fault? = some d → d.isError = true)
    (hreasons : ∀ d ∈ items.filterMap reason?, d.isError = false) :
    (items.flatMap fun i => i.report (warn i)).filter Diagnostic.isError =
        (items.flatMap attachments).filterMap Attachment.fault? ∧
      ((items.flatMap fun i => i.report (warn i)).filter (!·.isError)).Sublist
        (items.filterMap reason?) := by
  induction items with
  | nil => exact ⟨rfl, .slnil⟩
  | cons i items ih =>
    have hcons : (i :: items).filterMap reason? = i.reason?.toList ++ items.filterMap reason? := by
      rw [List.filterMap_eq_flatMap_toList, List.flatMap_cons, ← List.filterMap_eq_flatMap_toList]
    rw [hcons] at hreasons ⊢
    obtain ⟨herrors, hothers⟩ := filter_report (warn i)
      (fun a ha => hfaults a (List.mem_append_left _ ha))
      (fun d hd => hreasons d (List.mem_append_left _ (Option.mem_toList.2 hd)))
    obtain ⟨herrors', hothers'⟩ := ih (fun a ha => hfaults a (List.mem_append_right _ ha))
      (fun d hd => hreasons d (List.mem_append_right _ hd))
    rw [List.flatMap_cons, List.flatMap_cons, List.filter_append, List.filter_append, herrors,
      herrors', List.filterMap_append]
    exact ⟨rfl, hothers.append hothers'⟩

theorem isError_of_reason {s : Settings} {tokens : List Token} {d : Diagnostic}
    (h : d ∈ (parseAll s tokens).filterMap reason?) : d.isError = false := by
  obtain ⟨i, hi, hd⟩ := List.mem_filterMap.1 h
  cases i with
  | declared _ => cases hd
  | enclosing _ _ => cases hd
  | unsupported passed d' =>
    cases hd
    exact isError_of_parseAll hi

end Item

/-! ## Files -/

/-- The errors that are reported about a file are the faults of its annotations, in the order of the
text and each at a token of its annotation. Anything else is a warning about an item that is passed
through, one for such an item at most. -/
theorem transform_diagnostics {s : Settings} {t : Text} {stream : TokenStream}
    (htokenize : tokenize t = .ok stream) :
    let items := Item.parseAll s stream.tokens
    let attachments := items.flatMap Item.attachments
    let errors := (transform s t).diagnostics.filter Diagnostic.isError
    let others := (transform s t).diagnostics.filter (!·.isError)
    errors = attachments.filterMap Attachment.fault? ∧
      (∀ a ∈ attachments, ∀ d, a.fault? = some d → d.pos ∈ Token.positionsAll a.tokens) ∧
      (attachments.flatMap fun a => Token.positionsAll a.tokens).Sublist
        (Token.positionsAll stream.tokens) ∧
      (errors.map Diagnostic.pos).Pairwise (· < ·) ∧
      others.Sublist (items.filterMap Item.reason?) ∧
      (∀ d ∈ items.filterMap Item.reason?, d.severity = .warning) ∧
      ((transform s t).ok = true ↔ ∀ a ∈ attachments, a.fault? = none) := by
  intro items attachments errors others
  have hwithin : ∀ a ∈ attachments, ∀ d, a.fault? = some d → d.Within a.tokens := by
    intro a ha d hd
    obtain ⟨i, hi, ha⟩ := List.mem_flatMap.1 ha
    exact (Item.parseAll_scanned hi ha).within hd
  have hinside : (attachments.flatMap fun a => Token.positionsAll a.tokens).Sublist
      (Token.positionsAll stream.tokens) := (Item.inOrder_parseAll s stream.tokens).positions
  have hgrow := (standsAll_of_tokenize htokenize).bounds.1.sublist hinside
  obtain ⟨herrors, hothers⟩ := Item.filter_reports
    (fun i => s.warnUnsupported && i.mentionsDirective s) (fun a ha d hd => (hwithin a ha d hd).1)
    (fun d hd => Item.isError_of_reason hd)
  have hdiagnostics : (transform s t).diagnostics = items.flatMap fun i =>
      i.report (s.warnUnsupported && i.mentionsDirective s) := by
    rw [transform_eq s htokenize]
  rw [← hdiagnostics] at herrors hothers
  have hpairwise : (errors.map Diagnostic.pos).Pairwise (· < ·) := by
    show (((transform s t).diagnostics.filter _).map _).Pairwise _
    rw [herrors]
    exact Attachment.pairwise_faults hgrow hwithin
  refine ⟨herrors, fun a ha d hd => (hwithin a ha d hd).2, hinside, hpairwise, hothers,
    fun d hd => Diagnostic.isError_eq_false_iff.1 (Item.isError_of_reason hd), ?_⟩
  rw [Expansion.ok_iff, herrors]
  exact List.filterMap_eq_nil_iff

/-- Two faults in one line, one of them in a nested directive; a warning about an item that is
passed through; and a fault in front of an accepted directive. -/
theorem transform_diagnostics_mixed :
    let t : Text :=
      "#![cfg_attrs] struct S(#[cfg_attrs(a, #[cfg_attrs(b)])] u8);\n" ++
        "impl X \x7b #[cfg_attrs] \x7d\n#[cfg_attrs(, c)] #[cfg_attrs(d, e)] enum E \x7b \x7d"
    (transform {} t).diagnostics.map (fun d => (d.isError, d.pos)) =
        [(true, ⟨1, 1⟩), (true, ⟨1, 51⟩), (false, ⟨2, 1⟩), (true, ⟨3, 13⟩)] ∧
      (((transform {} t).diagnostics.filter Diagnostic.isError).map Diagnostic.pos).Pairwise
        (· < ·) ∧
      ∃ stream, tokenize t = .ok stream ∧
        (transform {} t).diagnostics.filter Diagnostic.isError =
          ((Item.parseAll {} stream.tokens).flatMap Item.attachments).filterMap
            Attachment.fault? ∧
        ((transform {} t).diagnostics.filter (!·.isError)).Sublist
          ((Item.parseAll {} stream.tokens).filterMap Item.reason?) := by
  intro t
  obtain ⟨stream, htokenize, -⟩ := @exists_of_tokenize t (fun _ => true) (by decide +kernel)
  obtain ⟨herrors, -, -, hpairwise, hothers, -, -⟩ := @transform_diagnostics {} t stream htokenize
  exact ⟨by decide +kernel, hpairwise, stream, htokenize, herrors, hothers⟩

end CondAttrs
