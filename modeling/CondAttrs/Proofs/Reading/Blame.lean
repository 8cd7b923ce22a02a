import CondAttrs.Proofs.Pointer
import CondAttrs.Proofs.Reading.Accept

/-!
# The form at fault

A directive fails as a whole for a fault of one form: its own, or that of a form nested in its
arguments, at some depth. `Form.FaultAt` says which form is at fault, by the indices that lead to
it from directive to directive, and why. The pointer of the diagnostic spells these indices out.

## Main definitions

* `Form.IsDirective`: the form has the directive's name.
* `Form.FaultAt`: a form has a fault of its own, or a form nested in it has one.
* `Diagnostic.Blames`: a diagnostic names the form at fault by its pointer.

## Main statements

* `Attribute.blames_of_ofForm`: a form is refused for the fault of a form that its pointer leads to.
-/

namespace CondAttrs

namespace Form

/-- The form has the directive's name and is no documentation comment. -/
def IsDirective (s : Settings) (f : Form) : Prop :=
  f.isDoc = false ∧ f.name = s.directive

/-- The form at the end of the given indices has the fault. The indices number the entries of a
directive, from the outermost directive to the innermost; `nested` tells that the form itself
stands among the entries of a directive. -/
inductive FaultAt (s : Settings) : (nested : Bool) → Form → List Nat → Fault → Position → Prop
  /-- An entry that is no annotation and has no path. -/
  | pathless {f : Form} : f.isBare = true → f.path = [] →
      FaultAt s true f [] (.annotationExpected f.text) f.pos
  /-- An entry that is an inner annotation. -/
  | inner {f : Form} : f.isInner = true →
      FaultAt s true f [] (.annotationInner f.text) f.pos
  /-- A directive without exactly one group of arguments in parentheses. -/
  | malformed {nested : Bool} {f : Form} : f.IsDirective s →
      (∀ group, f.arguments = [group] → group.isGroup .paren = false) →
      FaultAt s nested f [] (.argumentsMalformed s.directive f.text) f.pos
  /-- A directive without a comma among its arguments. -/
  | noSeparator {nested : Bool} {f : Form} {group : Token} : f.IsDirective s →
      f.arguments = [group] → group.isGroup .paren = true →
      Body.splitCondition group.children = none →
      FaultAt s nested f [] (.separatorMissing (Text.strip (Token.renderAll group.children)))
        ((group.children.getLast?.map Token.pos).getD group.pos)
  /-- A directive whose arguments start with a comma. -/
  | noCondition {nested : Bool} {f : Form} {group comma : Token} {rest : List Token} :
      f.IsDirective s → f.arguments = [group] → group.isGroup .paren = true →
      Body.splitCondition group.children = some ([], comma, rest) →
      FaultAt s nested f [] .conditionMissing comma.pos
  /-- A directive with an entry at fault. -/
  | inside {nested : Bool} {f g : Form} {group comma : Token} {condition rest : List Token}
      {index : Nat} {path : List Nat} {fault : Fault} {pos : Position} :
      f.IsDirective s → f.arguments = [group] → group.isGroup .paren = true →
      Body.splitCondition group.children = some (condition, comma, rest) → condition ≠ [] →
      (entries (Body.listTokens rest))[index]? = some g → FaultAt s true g path fault pos →
      FaultAt s nested f (index :: path) fault pos

end Form

/-- The steps to a nested form. -/
def nestedSteps (path : List Nat) : List (Text × Nat) :=
  path.map fun index => ("annotations", index)

/-- The diagnostic is about the form at the end of some indices, and its pointer spells them. -/
def Diagnostic.Blames (s : Settings) (pointer : Text) (nested : Bool) (f : Form)
    (d : Diagnostic) : Prop :=
  ∃ path, f.FaultAt s nested path d.fault d.pos ∧
    d.pointer = pointer ++ Pointer.ofSteps (nestedSteps path)

theorem Diagnostic.blames_self {s : Settings} {pointer : Text} {nested : Bool} {f : Form}
    {fault : Fault} {pos : Position} (h : f.FaultAt s nested [] fault pos) :
    Diagnostic.Blames s pointer nested f ⟨fault, pointer, pos⟩ :=
  ⟨[], h, (List.append_nil pointer).symm⟩

namespace Attribute

variable {s : Settings} {pointer : Text} {d : Diagnostic}

/-- The entries of a directive are refused for one of them, which has its index in its pointer. -/
theorem exists_of_ofEntries {forms : List Form} {index : Nat}
    (h : ofEntries s pointer index forms = .error d) :
    ∃ i g, forms[i]? = some g ∧
      ofEntry s (Pointer.entry pointer "annotations" (index + i)) g = .error d := by
  induction forms generalizing index with
  | nil =>
    rw [ofEntries] at h
    cases h
  | cons f forms ih =>
    rw [ofEntries] at h
    split at h
    · rename_i hentry
      cases h
      exact ⟨0, f, rfl, hentry⟩
    split at h
    · rename_i hentries
      cases h
      obtain ⟨i, g, hg, hentry⟩ := ih hentries
      refine ⟨i + 1, g, hg, ?_⟩
      rwa [Nat.add_assoc, Nat.add_comm 1 i] at hentry
    · cases h

theorem blames_of_ofEntry {f : Form}
    (hform : ofForm s pointer f = .error d → d.Blames s pointer true f)
    (h : ofEntry s pointer f = .error d) : d.Blames s pointer true f := by
  rw [ofEntry] at h
  split at h
  · rename_i hbare
    cases h
    rw [Bool.and_eq_true, List.isEmpty_iff] at hbare
    exact Diagnostic.blames_self (.pathless hbare.1 hbare.2)
  split at h
  · rename_i hinner
    cases h
    exact Diagnostic.blames_self (.inner hinner)
  · exact hform h

/-- The arguments of a directive are refused for a fault of the directive, or for an entry. -/
theorem blames_of_parse {f : Form} {group : Token} {nested : Bool} (hdirective : f.IsDirective s)
    (harguments : f.arguments = [group]) (hgroup : group.isGroup .paren = true)
    (hentries : ∀ {condition comma rest},
      Body.splitCondition group.children = some (condition, comma, rest) →
      ∀ g ∈ Form.entries (Body.listTokens rest), ∀ pointer,
        ofEntry s pointer g = .error d → d.Blames s pointer true g)
    (h : Body.parse s pointer group.pos group.children = .error d) :
    d.Blames s pointer nested f := by
  rw [Body.parse] at h
  split at h
  · rename_i hsplit
    cases h
    exact Diagnostic.blames_self (.noSeparator hdirective harguments hgroup hsplit)
  · rename_i comma rest hsplit
    cases h
    exact Diagnostic.blames_self (.noCondition hdirective harguments hgroup hsplit)
  · rename_i condition comma rest hne hsplit
    split at h
    · rename_i herror
      cases h
      obtain ⟨index, g, hg, hentry⟩ := exists_of_ofEntries herror
      rw [Nat.zero_add] at hentry
      obtain ⟨path, hfault, hpointer⟩ :=
        hentries hsplit g (List.mem_of_getElem? hg) _ hentry
      refine ⟨index :: path, .inside hdirective harguments hgroup hsplit hne hg hfault, ?_⟩
      rw [hpointer, Pointer.entry_eq, List.append_assoc, ← Pointer.ofSteps_append]
      rfl
    · cases h

/-- A form is refused for the fault of a form that its pointer leads to. -/
theorem blames_of_ofForm {f : Form} (nested : Bool) (h : ofForm s pointer f = .error d) :
    d.Blames s pointer nested f := by
  induction hn : f.size using Nat.strongRecOn generalizing f pointer nested with
  | ind n ih =>
    rw [ofForm] at h
    split at h
    · cases h
    rename_i hdirective
    have hdirective : f.IsDirective s := by
      simpa [Form.IsDirective] using hdirective
    have hmalformed : (∀ group, f.arguments = [group] → group.isGroup .paren = false) →
        Diagnostic.Blames s pointer nested f
          ⟨.argumentsMalformed s.directive f.text, pointer, f.pos⟩ :=
      fun hgroup => Diagnostic.blames_self (.malformed hdirective hgroup)
    split at h
    · rename_i group harguments
      split at h
      · rename_i hgroup
        split at h
        · rename_i herror
          cases h
          refine blames_of_parse hdirective harguments hgroup (fun hsplit g hg pointer hentry => ?_)
            herror
          have hsize := Form.sizeAll_children_lt_size harguments
          have hsmaller := Body.size_lt_of_mem_entries hsplit hg
          exact blames_of_ofEntry (fun hform => ih g.size (by omega) true hform rfl) hentry
        · cases h
      · rename_i hgroup
        cases h
        refine hmalformed fun group' hgroup' => ?_
        rw [harguments] at hgroup'
        cases hgroup'
        exact Bool.eq_false_iff.2 hgroup
    · rename_i hother
      cases h
      exact hmalformed fun group hgroup => absurd hgroup (hother group)

end Attribute

end CondAttrs
