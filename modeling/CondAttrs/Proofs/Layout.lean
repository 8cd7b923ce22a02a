import CondAttrs.Proofs.Document
import Mathlib.Data.List.Forall2

/-!
# The layout of documents

Which lines of a document make up which node. A document is the segments of its nodes, one behind
the other: the segment of a line of text is that line, and the segment of a block is its opening
fence, one line for each line of its content and, unless a line that is indented less or the end of
the document comes first, its closing fence. So no line is lost or read twice, and nothing but the
indentation of the fence is taken from a line of content. Conversely a document that is made of such
segments is read as the nodes they belong to.

Both directions follow the reader: inside a block it goes from line to line, and behind the block it
goes on as if the document started there.

## Main definitions

* `OpensFence`, `CodeBlock.Opening`, `CodeBlock.Closing`, `CodeBlock.Indents`: the kinds of lines.
* `Node.Segment`, `Node.Segments`: the lines of a node, and of all nodes of a document.
* `Passage`: a part of a document as it is written.

## Main statements

* `Node.exists_segments`, `Node.readAll_of_segments`: a document and the segments of its nodes.
* `Node.readAll_segmented`: no line is lost or repeated.
* `readAll_passages`: a document is read as it is written.
-/

namespace CondAttrs

/-! ## Blanks at the end of a line -/

namespace Text

theorem trimRight_append_blanks (t : Text) {blanks : Text}
    (h : ∀ c ∈ blanks, isBlank c = true) : trimRight (t ++ blanks) = trimRight t := by
  rw [trimRight, List.reverse_append, List.dropWhile_append_of_pos]
  · rfl
  · simpa using h

/-- A line is its text and the blanks at its end. -/
theorem exists_blanks (t : Text) :
    ∃ blanks, (∀ c ∈ blanks, isBlank c = true) ∧ t = trimRight t ++ blanks := by
  refine ⟨(t.reverse.takeWhile isBlank).reverse, fun c hc => ?_, ?_⟩
  · exact List.mem_takeWhile_imp (List.mem_reverse.1 hc)
  · rw [trimRight, ← List.reverse_append, List.takeWhile_append_dropWhile, List.reverse_reverse]

end Text

namespace Readme

open Text (trimRight isBlank)

/-! ## Indented lines -/

/-- A line starts with `k` blanks if there are `k` of them among its first characters. -/
theorem replicate_prefix_iff {k n : Nat} (h : k ≤ n) (line : Text) :
    List.replicate k ' ' <+: line ↔ k ≤ ((line.take n).takeWhile (· = ' ')).length := by
  induction k generalizing n line with
  | zero => simp
  | succ k ih =>
    obtain ⟨n, rfl⟩ : ∃ m, n = m + 1 := ⟨n - 1, by omega⟩
    cases line with
    | nil => simp [List.replicate_succ]
    | cons c rest =>
      by_cases hc : c = ' '
      · subst hc
        rw [List.replicate_succ, List.cons_prefix_cons, ih (Nat.le_of_succ_le_succ h)]
        simp
      · have hne : ' ' ≠ c := fun heq => hc heq.symm
        simp [List.replicate_succ, List.cons_prefix_cons, hc, hne]

theorem prefix_of_fenceIndent {line : Text} {k : Nat} (h : fenceIndent line = some k) :
    List.replicate k ' ' <+: line := by
  rw [replicate_prefix_iff (fenceIndent_le h)]
  simp only [fenceIndent] at h
  split at h
  · cases h
  · cases h
    exact Nat.le_refl _

/-- A line is indented less than `k` blanks if it does not start with them. -/
theorem fenceIndent_lt_iff {k : Nat} (hk : k ≤ maxFenceIndent) (line : Text) :
    (fenceIndent line).any (· < k) = true ↔ ¬ List.replicate k ' ' <+: line := by
  rw [replicate_prefix_iff hk, Nat.not_le]
  simp only [fenceIndent]
  split
  · rename_i hfar
    rw [Bool.and_eq_true, decide_eq_true_iff] at hfar
    rw [hfar.1]
    simpa using hk
  · simp

/-- The line opens a fence: it starts with three blanks at most and three backticks at least. -/
def OpensFence (line : Text) : Prop :=
  ∃ k ≤ maxFenceIndent, List.replicate k ' ' ++ List.replicate 3 backtick <+: line

/-- The line closes a fence that is indented by `k` blanks. -/
def ClosesFence (k : Nat) (fence line : Text) : Prop :=
  ∃ blanks, (∀ c ∈ blanks, isBlank c = true) ∧ line = List.replicate k ' ' ++ (fence ++ blanks)

namespace CodeBlock

variable {b : CodeBlock} {line : Text}

/-! ## The lines of a block -/

/-- The line is the opening fence of the block, with what stands behind it. -/
def Opening (b : CodeBlock) (line : Text) : Prop :=
  ∃ blanks, (∀ c ∈ blanks, isBlank c = true) ∧
    line = List.replicate b.indentation ' ' ++ (b.fence ++ (b.info.getD [] ++ blanks))

/-- The line is the closing fence of the block. -/
def Closing (b : CodeBlock) (line : Text) : Prop :=
  ClosesFence b.indentation b.fence line

/-- The line is a line of content behind the indentation of the block, or both are empty. -/
def Indents (b : CodeBlock) (line content : Text) : Prop :=
  line = List.replicate b.indentation ' ' ++ content ∨ line = [] ∧ content = []

/-- The line is not empty, and it is indented less than the block. -/
def Dedents (b : CodeBlock) (line : Text) : Prop :=
  line ≠ [] ∧ ¬ List.replicate b.indentation ' ' <+: line

theorem endsBefore_iff (hb : b.indentation ≤ maxFenceIndent) :
    b.endsBefore line = true ↔ b.Dedents line := by
  rw [endsBefore, Bool.and_eq_true, fenceIndent_lt_iff hb, Dedents]
  simp

theorem Indents.drop {content : Text} (h : b.Indents line content) :
    line.drop b.indentation = content := by
  rcases h with rfl | ⟨rfl, rfl⟩
  · exact List.drop_left' (List.length_replicate ..)
  · exact List.drop_nil

theorem Indents.not_dedents {content : Text} (h : b.Indents line content) : ¬ b.Dedents line := by
  rintro ⟨hne, hstart⟩
  rcases h with rfl | ⟨rfl, -⟩
  · exact hstart (List.prefix_append _ _)
  · exact hne rfl

/-- What does not end the block has its indentation. -/
theorem indents_of_not_dedents (h : ¬ b.Dedents line) :
    b.Indents line (line.drop b.indentation) := by
  by_cases hne : line = []
  · subst hne
    exact .inr ⟨rfl, List.drop_nil⟩
  · have hstart : List.replicate b.indentation ' ' <+: line := by
      by_contra hstart
      exact h ⟨hne, hstart⟩
    obtain ⟨content, rfl⟩ := hstart
    exact .inl (by rw [List.drop_left' (List.length_replicate ..)])

theorem Closing.indents (h : b.Closing line) : ∃ blanks, (∀ c ∈ blanks, isBlank c = true) ∧
    b.Indents line (b.fence ++ blanks) := by
  obtain ⟨blanks, hblanks, rfl⟩ := h
  exact ⟨blanks, hblanks, .inl rfl⟩

/-- A line that closes the block is its closing fence. -/
theorem closedBy_iff (hb : b.Sound) (h : ¬ b.Dedents line) :
    b.closedBy line = true ↔ b.Closing line := by
  rw [closedBy, decide_eq_true_iff]
  constructor
  · intro htrim
    obtain ⟨blanks, hblanks, hline⟩ := Text.exists_blanks (line.drop b.indentation)
    rw [htrim] at hline
    refine ⟨blanks, hblanks, ?_⟩
    rcases indents_of_not_dedents h with hindent | ⟨-, hnil⟩
    · rw [hindent, hline]
    · -- an empty line is no fence
      obtain ⟨rest, hfence⟩ := hb.fence_eq_cons
      rw [hnil, hfence] at hline
      cases hline
  · intro hclosing
    obtain ⟨blanks, hblanks, hindents⟩ := hclosing.indents
    rw [hindents.drop, Text.trimRight_append_blanks _ hblanks, hb.trimRight_fence]

/-- A block opens with its fence, and what stands behind it up to blanks at the end. -/
theorem ofOpening_fence {k : Nat} {fence after : Text} (hk : k ≤ maxFenceIndent)
    (hfence : ∀ c ∈ fence, c = backtick) (hlong : 3 ≤ fence.length)
    (hafter : after.head? ≠ some backtick) :
    ofOpening (List.replicate k ' ' ++ (fence ++ after)) =
      some ⟨fence, k, if (trimRight after).isEmpty then none else some (trimRight after), []⟩ := by
  have hlevel : fenceIndent (List.replicate k ' ' ++ (fence ++ after)) = some k := by
    cases fence with
    | nil => exact absurd hlong (by decide)
    | cons c rest =>
      rw [hfence c List.mem_cons_self]
      exact fenceIndent_of_head hk (by decide) _
  have htake : (fence ++ after).takeWhile (· = backtick) = fence := by
    rw [List.takeWhile_append_of_pos (fun c hc => decide_eq_true (hfence c hc))]
    cases after with
    | nil => simp
    | cons c more => simp [show c ≠ backtick by simpa using hafter]
  have hdrop : (List.replicate k ' ' ++ (fence ++ after)).drop k = fence ++ after :=
    List.drop_left' (List.length_replicate ..)
  rw [ofOpening, hlevel]
  simp only [Option.bind_some, hdrop, htake, List.drop_left]
  rw [if_pos hlong]

/-- The line that opens a block is its opening fence. -/
theorem opening_of_ofOpening (h : ofOpening line = some b) : b.Opening line := by
  simp only [ofOpening, Option.bind_eq_some_iff] at h
  obtain ⟨k, hk, h⟩ := h
  obtain ⟨rest, rfl⟩ := prefix_of_fenceIndent hk
  rw [List.drop_left' (List.length_replicate ..)] at h
  split at h
  · cases h
    obtain ⟨blanks, hblanks, hafter⟩ := Text.exists_blanks
      (rest.drop (rest.takeWhile (· = backtick)).length)
    refine ⟨blanks, hblanks, ?_⟩
    have hfence : rest = rest.takeWhile (· = backtick) ++
        rest.drop (rest.takeWhile (· = backtick)).length := by
      conv_lhs => rw [← List.take_append_drop (rest.takeWhile (· = backtick)).length rest]
      rw [← List.prefix_iff_eq_take.1 (List.takeWhile_prefix _)]
    have hinfo : ∀ info : Text, (if info.isEmpty then none else some info).getD [] = info := by
      intro info
      cases info <;> rfl
    simp only [hinfo]
    rw [← hafter, ← hfence]
  · cases h

theorem lines_of_ofOpening (h : ofOpening line = some b) : b.lines = [] := by
  simp only [ofOpening, Option.bind_eq_some_iff] at h
  obtain ⟨k, -, h⟩ := h
  split at h
  · cases h
    rfl
  · cases h

/-- The opening fence of a block opens it. -/
theorem ofOpening_of_opening (hb : b.Sound) (h : b.Opening line) :
    ofOpening line = some { b with lines := [] } := by
  obtain ⟨blanks, hblanks, rfl⟩ := h
  have hblank : ∀ c ∈ blanks, c ≠ backtick := by
    rintro c hc rfl
    exact absurd (hblanks _ hc) (by decide)
  cases hinfo : b.info with
  | none =>
    have hafter : (([] : Text) ++ blanks).head? ≠ some backtick := by
      intro hhead
      exact hblank _ (List.mem_of_head? hhead) rfl
    have htrim : trimRight ([] ++ blanks) = [] := Text.trimRight_append_blanks [] hblanks
    rw [Option.getD_none, ofOpening_fence hb.indentation hb.backticks hb.long hafter, htrim]
    rfl
  | some info =>
    obtain ⟨hne, htrim, hhead⟩ := hb.info info hinfo
    have hafter : (info ++ blanks).head? ≠ some backtick := by
      rwa [List.head?_append_of_ne_nil _ hne]
    rw [Option.getD_some, ofOpening_fence hb.indentation hb.backticks hb.long hafter,
      Text.trimRight_append_blanks _ hblanks, htrim]
    simp [hne]

/-- A line opens a block if it opens a fence. -/
theorem ofOpening_eq_none_iff : ofOpening line = none ↔ ¬ OpensFence line := by
  constructor
  · rintro hnone ⟨k, hk, rest, rfl⟩
    -- the fence is the longest run of backticks
    have hfence : ∀ c ∈ List.replicate 3 backtick ++ rest.takeWhile (· = backtick), c = backtick := by
      intro c hc
      rcases List.mem_append.1 hc with hc | hc
      · exact List.eq_of_mem_replicate hc
      · simpa using List.mem_takeWhile_imp hc
    have hafter : (rest.dropWhile (· = backtick)).head? ≠ some backtick := by
      intro hhead
      have := List.head?_dropWhile_not (· = backtick) rest
      simp [hhead] at this
    have hsome := ofOpening_fence hk hfence (by simp) hafter
    have hsplit := @List.takeWhile_append_dropWhile _ (· = backtick) rest
    rw [List.append_assoc, hsplit, ← List.append_assoc, hnone] at hsome
    cases hsome
  · intro hfence
    cases hopening : ofOpening line with
    | none => rfl
    | some b =>
      refine absurd ?_ hfence
      have hb := sound_of_ofOpening hopening
      obtain ⟨blanks, -, rfl⟩ := opening_of_ofOpening hopening
      refine ⟨b.indentation, hb.indentation, ?_⟩
      have hstart : List.replicate 3 backtick <+: b.fence := by
        rw [List.eq_replicate_of_mem hb.backticks]
        exact ⟨List.replicate (b.fence.length - 3) backtick, by
          rw [← List.replicate_add, Nat.add_sub_cancel' hb.long]⟩
      exact (List.prefix_append_right_inj _).2 (hstart.trans (List.prefix_append _ _))

/-! ## Segments of blocks -/

/-- How the lines of a block end in front of `next`: with its closing fence, or with nothing if
`next` is indented less or missing. -/
def Ending (b : CodeBlock) (closing : List Text) (next : Option Text) : Prop :=
  (∃ line, closing = [line] ∧ b.Closing line) ∨ closing = [] ∧ ∀ line, next = some line → b.Dedents line

/-- The lines of the block in front of `next`. -/
structure Segment (b : CodeBlock) (segment : List Text) (next : Option Text) : Prop where
  sound : b.Sound
  lines : ∃ opening content closing, segment = opening :: (content ++ closing) ∧
    b.Opening opening ∧ List.Forall₂ b.Indents content b.lines ∧ b.Ending closing next

end CodeBlock

namespace Node

open CodeBlock

variable {b : CodeBlock}

/-- A block ends with its closing line, or before a line that is indented less. -/
theorem readFrom_ending (hb : b.Sound) {closing rest : List Text}
    (h : b.Ending closing rest.head?) :
    readFrom (some b) (closing ++ rest) = .code b :: readFrom none rest := by
  rcases h with ⟨line, rfl, hclosing⟩ | ⟨rfl, hnext⟩
  · obtain ⟨blanks, hblanks, hindents⟩ := hclosing.indents
    have hends : b.endsBefore line = false := by
      rw [← Bool.not_eq_true, endsBefore_iff hb.indentation]
      exact hindents.not_dedents
    have hclosed : b.closedBy line = true := (closedBy_iff hb hindents.not_dedents).2 hclosing
    rw [List.singleton_append, readFrom]
    simp [step, hends, hclosed]
  · cases rest with
    | nil => rfl
    | cons line rest =>
      have hends : b.endsBefore line = true := (endsBefore_iff hb.indentation).2 (hnext line rfl)
      rw [List.nil_append, readFrom, readFrom]
      simp [step, hends]

/-- A line of content is added to the block. -/
theorem readFrom_indents (hb : b.Sound) {line content : Text} (h : b.Indents line content)
    (hcontent : trimRight content ≠ b.fence) (rest : List Text) :
    readFrom (some b) (line :: rest) =
      readFrom (some { b with lines := b.lines ++ [content] }) rest := by
  have hends : b.endsBefore line = false := by
    rw [← Bool.not_eq_true, endsBefore_iff hb.indentation]
    exact h.not_dedents
  have hclosed : b.closedBy line = false := by
    rw [closedBy, h.drop]
    exact decide_eq_false hcontent
  rw [readFrom]
  simp [step, hends, hclosed, add, h.drop]

/-- The lines of content are added to the block. -/
theorem readFrom_lines {lines content : List Text} (hb : b.Sound)
    (h : List.Forall₂ b.Indents lines content) (hcontent : ∀ line ∈ content, trimRight line ≠ b.fence)
    (rest : List Text) :
    readFrom (some b) (lines ++ rest) =
      readFrom (some { b with lines := b.lines ++ content }) rest := by
  induction content generalizing b lines with
  | nil =>
    cases h
    simp
  | cons first content ih =>
    cases h with
    | @cons line _ lines _ hfirst hmore =>
      obtain ⟨hne, hcontent⟩ := List.forall_mem_cons.1 hcontent
      have hnext : ({ b with lines := b.lines ++ [first] } : CodeBlock).Sound :=
        ⟨hb.backticks, hb.long, hb.indentation, hb.info, by
          simpa [or_imp, forall_and] using ⟨hb.content, hne⟩⟩
      rw [List.cons_append, readFrom_indents hb hfirst hne]
      refine (ih hnext hmore hcontent).trans ?_
      rw [List.append_assoc, List.singleton_append]

/-- Behind an open block come lines of content and the end of the block; from there on the document
is read as from its start. -/
theorem exists_lines (hb : b.Sound) (lines : List Text) :
    ∃ content added closing rest, lines = content ++ (closing ++ rest) ∧
      List.Forall₂ b.Indents content added ∧ b.Ending closing rest.head? ∧
      readFrom (some b) lines = .code { b with lines := b.lines ++ added } :: readFrom none rest := by
  induction lines generalizing b with
  | nil =>
    refine ⟨[], [], [], [], rfl, .nil, .inr ⟨rfl, by simp⟩, ?_⟩
    rw [List.append_nil]
    rfl
  | cons line lines ih =>
    by_cases hends : b.Dedents line
    · have hending : b.Ending [] (line :: lines).head? := by
        refine .inr ⟨rfl, ?_⟩
        rintro next ⟨⟩
        exact hends
      refine ⟨[], [], [], line :: lines, rfl, .nil, hending, ?_⟩
      rw [List.append_nil]
      exact readFrom_ending hb hending
    by_cases hclosed : b.closedBy line = true
    · have hending : b.Ending [line] lines.head? :=
        .inl ⟨line, rfl, (closedBy_iff hb hends).1 hclosed⟩
      refine ⟨[], [], [line], lines, rfl, .nil, hending, ?_⟩
      rw [List.append_nil]
      exact readFrom_ending hb hending
    · have hindents := indents_of_not_dedents hends
      rw [Bool.not_eq_true] at hclosed
      obtain ⟨content, added, closing, rest, rfl, hcontent, hending, hread⟩ := ih (hb.add hclosed)
      refine ⟨line :: content, line.drop b.indentation :: added, closing, rest, rfl,
        .cons hindents hcontent, hending, ?_⟩
      rw [readFrom_indents hb hindents (of_decide_eq_false hclosed)]
      refine hread.trans ?_
      rw [add, List.append_assoc, List.singleton_append]

/-! ## Segments of documents -/

/-- The lines of the node in front of `next`. -/
def Segment : Node → List Text → Option Text → Prop
  | text shown, segment, _ =>
    ∃ line, segment = [line] ∧ ¬ OpensFence line ∧ shown = promoteHeading line
  | code block, segment, next => block.Segment segment next

/-- The lines of the nodes, in order. -/
inductive Segments : List Node → List (List Text) → Prop where
  | nil : Segments [] []
  | cons {n : Node} {nodes : List Node} {segment : List Text} {segments : List (List Text)}
      (hfirst : n.Segment segment segments.flatten.head?) (hrest : Segments nodes segments) :
      Segments (n :: nodes) (segment :: segments)

/-- The segment of a node is read as that node. -/
theorem readFrom_segment {n : Node} {segment rest : List Text} (h : n.Segment segment rest.head?) :
    readFrom none (segment ++ rest) = n :: readFrom none rest := by
  cases n with
  | text shown =>
    obtain ⟨line, rfl, hfence, rfl⟩ := h
    rw [List.singleton_append, readFrom, step, stepOutside, ofOpening_eq_none_iff.2 hfence]
    rfl
  | code b =>
    obtain ⟨hb, opening, content, closing, rfl, hopening, hcontent, hending⟩ := h
    have hempty : ({ b with lines := [] } : CodeBlock).Sound :=
      ⟨hb.backticks, hb.long, hb.indentation, hb.info, by simp⟩
    rw [List.cons_append, readFrom, step, stepOutside, ofOpening_of_opening hb hopening,
      List.append_assoc]
    exact (readFrom_lines hempty hcontent hb.content _).trans (readFrom_ending hb hending)

/-- A document that is made of the segments of some nodes is read as these nodes. -/
theorem readAll_of_segments {nodes : List Node} {segments : List (List Text)}
    (h : Segments nodes segments) : readAll segments.flatten = nodes := by
  induction h with
  | nil => rfl
  | @cons n nodes segment segments hfirst _ ih =>
    rw [List.flatten_cons, readAll, readFrom_segment hfirst]
    exact congrArg (n :: ·) ih

/-- Every document is made of the segments of its nodes. -/
theorem exists_segments (lines : List Text) :
    ∃ segments, segments.flatten = lines ∧ Segments (readAll lines) segments := by
  -- behind a block the reader goes on with what is left of the document
  induction hlength : lines.length using Nat.strongRecOn generalizing lines with
  | ind length ih =>
    subst hlength
    cases lines with
    | nil => exact ⟨[], rfl, .nil⟩
    | cons line lines =>
      cases hopening : ofOpening line with
      | none =>
        obtain ⟨segments, hflatten, hsegments⟩ := ih lines.length (Nat.lt_succ_self _) lines rfl
        refine ⟨[line] :: segments, by rw [List.flatten_cons, hflatten]; rfl, ?_⟩
        rw [readAll, readFrom, step, stepOutside, hopening]
        exact .cons ⟨line, rfl, ofOpening_eq_none_iff.1 hopening, rfl⟩ hsegments
      | some b =>
        have hb := sound_of_ofOpening hopening
        obtain ⟨content, added, closing, rest, rfl, hcontent, hending, hread⟩ := exists_lines hb lines
        have hlt : rest.length < (line :: (content ++ (closing ++ rest))).length := by
          simp only [List.length_cons, List.length_append]
          omega
        obtain ⟨segments, rfl, hsegments⟩ := ih rest.length hlt rest rfl
        have hall : readAll (line :: (content ++ (closing ++ segments.flatten))) =
            .code { b with lines := b.lines ++ added } :: readAll segments.flatten := by
          rw [readAll, readFrom, step, stepOutside, hopening]
          exact hread
        refine ⟨(line :: (content ++ closing)) :: segments, by simp, ?_⟩
        have hsound : ({ b with lines := b.lines ++ added } : CodeBlock).Sound := by
          have hnodes := @sound_readFrom (line :: (content ++ (closing ++ segments.flatten))) none
            (by simp)
          rw [← readAll, hall] at hnodes
          exact hnodes _ List.mem_cons_self
        have hline : b.Opening line := opening_of_ofOpening hopening
        rw [hall]
        refine .cons ⟨hsound, line, content, closing, rfl, hline, ?_, hending⟩ hsegments
        rw [lines_of_ofOpening hopening]
        exact hcontent

/-- No line of a document is lost or repeated: the document is made of the segments of its nodes,
in order. No other nodes have segments that make up the document. -/
theorem readAll_segmented (lines : List Text) :
    (∃ segments, segments.flatten = lines ∧ Segments (readAll lines) segments) ∧
      ∀ nodes segments, segments.flatten = lines → Segments nodes segments →
        nodes = readAll lines := by
  refine ⟨exists_segments lines, ?_⟩
  rintro nodes segments rfl hsegments
  exact (readAll_of_segments hsegments).symm

end Node

/-! ## Documents as they are written -/

/-- A fenced block as it is written, from its opening to its closing fence. -/
structure Fenced where
  /-- The number of blanks in front of the two fences. -/
  indentation : Nat
  /-- The backticks of both fences. -/
  fence : Text
  /-- What stands behind the backticks of the opening fence. -/
  info : Text
  /-- The lines between the fences. -/
  content : List Text
  /-- What stands behind the backticks of the closing fence. -/
  ending : Text
  indentation_le : indentation ≤ maxFenceIndent
  backticks : ∀ c ∈ fence, c = backtick
  long : 3 ≤ fence.length
  info_head : info.head? ≠ some backtick
  ending_blank : ∀ c ∈ ending, isBlank c = true
  indented : ∀ line ∈ content, line = [] ∨
    List.replicate indentation ' ' <+: line ∧ ¬ ClosesFence indentation fence line

namespace Fenced

variable (f : Fenced)

/-- The lines of the block. -/
def lines : List Text :=
  (List.replicate f.indentation ' ' ++ (f.fence ++ f.info)) ::
    (f.content ++ [List.replicate f.indentation ' ' ++ (f.fence ++ f.ending)])

/-- The block of code that is written. Blanks at the end of the information do not count. -/
def block : CodeBlock where
  fence := f.fence
  indentation := f.indentation
  info := if (trimRight f.info).isEmpty then none else some (trimRight f.info)
  lines := f.content.map (·.drop f.indentation)

theorem info_block : f.block.info.getD [] = trimRight f.info := by
  unfold block
  cases trimRight f.info <;> rfl

theorem sound_block : f.block.Sound where
  backticks := f.backticks
  long := f.long
  indentation := f.indentation_le
  info := by
    intro info hinfo
    simp only [block] at hinfo
    split at hinfo
    · cases hinfo
    · rename_i hne
      rw [List.isEmpty_iff] at hne
      cases hinfo
      refine ⟨hne, List.rdropWhile_idempotent _ _, ?_⟩
      rw [Text.head?_trimRight hne]
      exact f.info_head
  content := by
    intro content hcontent
    obtain ⟨line, hline, rfl⟩ := List.mem_map.1 hcontent
    intro htrim
    obtain ⟨blanks, hblanks, hsplit⟩ := Text.exists_blanks (line.drop f.indentation)
    rcases f.indented line hline with rfl | ⟨hstart, hcloses⟩
    · -- an empty line is no fence
      rw [List.drop_nil] at htrim
      have hnil : f.fence = [] := htrim.symm
      exact absurd f.long (by rw [hnil]; decide)
    · obtain ⟨rest, rfl⟩ := hstart
      rw [List.drop_left' (List.length_replicate ..)] at htrim hsplit
      rw [htrim] at hsplit
      exact hcloses ⟨blanks, hblanks, congrArg (List.replicate f.indentation ' ' ++ ·) hsplit⟩

theorem indents_block : List.Forall₂ f.block.Indents f.content f.block.lines := by
  rw [block, List.forall₂_map_right_iff, List.forall₂_same]
  intro line hline
  refine CodeBlock.indents_of_not_dedents ?_
  rintro ⟨hne, hstart⟩
  rcases f.indented line hline with hnil | ⟨hindent, -⟩
  · exact hne hnil
  · exact hstart hindent

/-- What is written is the segment of the block. -/
theorem segment (next : Option Text) : f.block.Segment f.lines next where
  sound := f.sound_block
  lines := by
    obtain ⟨blanks, hblanks, hinfo⟩ := Text.exists_blanks f.info
    refine ⟨_, _, _, rfl, ⟨blanks, hblanks, ?_⟩, f.indents_block,
      .inl ⟨_, rfl, f.ending, f.ending_blank, rfl⟩⟩
    rw [info_block, ← hinfo]
    rfl

end Fenced

/-- A part of a document as it is written: a line of text, which opens no fence, or a block. -/
inductive Passage where
  /-- A line of text. -/
  | text (line : Text) (plain : ¬ OpensFence line)
  /-- A fenced block. -/
  | fenced (block : Fenced)

namespace Passage

/-- The lines of a passage. -/
def lines : Passage → List Text
  | text line _ => [line]
  | fenced block => block.lines

/-- The node that is written. -/
def node : Passage → Node
  | text line _ => .text (promoteHeading line)
  | fenced block => .code block.block

theorem segment (passage : Passage) (next : Option Text) :
    passage.node.Segment passage.lines next := by
  cases passage with
  | text line plain => exact ⟨line, rfl, plain, rfl⟩
  | fenced block => exact block.segment next

theorem segments (passages : List Passage) :
    Node.Segments (passages.map node) (passages.map lines) := by
  induction passages with
  | nil => exact .nil
  | cons passage passages ih => exact .cons (passage.segment _) ih

end Passage

/-- A document is read as it is written: a line of text gives one node, and so does a block, with
its fence, indentation and information and with one line of content for each line between the
fences. -/
theorem readAll_passages (passages : List Passage) :
    Node.readAll (passages.flatMap Passage.lines) = passages.map Passage.node := by
  rw [List.flatMap_def]
  exact Node.readAll_of_segments (Passage.segments passages)

/-- A line of blanks between the fences has to be indented like them. -/
theorem readAll_short_blank :
    Text.trimRight " " = [] ∧
      ¬ ∃ content, Node.readAll ["  ```", " ", "  ```"] = [.code ⟨"```", 2, none, [content]⟩] := by
  refine ⟨by decide, ?_⟩
  rintro ⟨content, hread⟩
  have hlength : (Node.readAll ["  ```", " ", "  ```"]).length = 3 := by decide
  rw [hread] at hlength
  cases hlength

end Readme

end CondAttrs
