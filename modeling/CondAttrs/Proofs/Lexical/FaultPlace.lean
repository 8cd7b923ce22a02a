import CondAttrs.Proofs.Lexical.Bracket
import CondAttrs.Proofs.Lexical.Fault
import CondAttrs.Proofs.Lexical.Interval
import CondAttrs.Proofs.Lexical.Quotation

/-!
# Where lexical faults are reported

A text that cannot be read is reported at the place where the part at fault starts: the comment or
literal that does not end, the character that starts nothing, the bracket without its partner. The
position is that of an offset of the text, whatever lines, comments and literals stand in front.

There is one exception. Whether a text starts with an interpreter line is judged by reading what
follows `#!` as a text of its own. A comment that does not end there is reported by its place in
that text. Lines are the same in both texts, and so are columns but in the first line, where the
two characters of every mark in front are missing.

## Main definitions

* `Fault.Begins`: how a text starts with the part at fault.
* `Trivia.shebangMarks`: the marks of interpreter lines, one behind the other.
* `Diagnostic.Shifted`: a report too far to the left.

## Main statements

* `Glyph.begins_of_read`, `Trivia.begins_of_read`: the faults of single tokens and of trivia.
* `Nesting.blames_of_build`: the faults of brackets.
* `tokenize_fault_place`: every fault of every text.
-/

namespace CondAttrs

open Literal (Quoted rawClosing quotedBody)

/-! ## The part at fault -/

/-- The type letters that may stand in front of a quote. -/
def quoteMarks (quote : Char) : List Text :=
  if quote = '"' then [[], ['b'], ['c']] else [[], ['b']]

/-- The text starts with the part that is at fault. A comment or a literal is at fault if nothing
behind its opening closes it. -/
inductive Fault.Begins : Fault → Text → Prop where
  | comment {rest : Text} (hopen : ∀ inner after, Closes inner → rest ≠ inner ++ after) :
      Begins .commentUnterminated ('/' :: '*' :: rest)
  | character {c : Char} {rest : Text} : Begins (.characterInvalid c) (c :: rest)
  | raw {mark rest : Text} {hashes : Nat} (hmark : mark ∈ [['r'], ['b', 'r'], ['c', 'r']])
      (hopen : ¬ rawClosing hashes <:+: rest) :
      Begins (.rawUnterminated hashes) (mark ++ (List.replicate hashes '#' ++ '"' :: rest))
  | literal {mark rest : Text} {quote : Char} (hquote : quote ∈ ['"', '\''])
      (hmark : mark ∈ quoteMarks quote)
      (hopen : ∀ body after, Quoted quote body → rest ≠ body ++ after) :
      Begins (.literalUnterminated quote) (mark ++ quote :: rest)
  | quote {rest : Text} : Begins (.characterUnterminated rest.head?) ('\'' :: rest)
  | unbalanced {d : Delimiter} {innermost : Option Delimiter} {rest : Text} :
      Begins (.delimiterUnbalanced d innermost) (d.closing :: rest)
  | unclosed {d : Delimiter} {rest : Text} : Begins (.delimiterUnclosed d) (d.opening :: rest)

/-! ## What is not closed -/

theorem not_closes_of_blockBody {t : Text} (h : blockBody 0 t = none) :
    ∀ inner after, Closes inner → t ≠ inner ++ after := by
  rintro inner after hcloses rfl
  obtain ⟨body, -, hbody⟩ := hcloses.blockBody_append
  rw [(hbody after).1] at h
  cases h

theorem not_quoted_of_quotedBody {quote : Char} {t : Text} (hquote : quote ≠ '\\')
    (h : quotedBody quote t = none) : ∀ body after, Quoted quote body → t ≠ body ++ after := by
  rintro body after hbody rfl
  induction hbody with
  | close =>
    rw [List.singleton_append, Literal.quotedBody_cons hquote, if_pos rfl] at h
    cases h
  | escape _ ih =>
    rw [List.cons_append, List.cons_append, quotedBody, Option.map_eq_none_iff] at h
    exact ih h
  | char hchar hescape _ ih =>
    rw [List.cons_append, Literal.quotedBody_cons hescape, if_neg hchar,
      Option.map_eq_none_iff] at h
    exact ih h

theorem not_infix_of_splitAtWord {word t : Text} (h : Text.splitAtWord word t = none) :
    ¬ word <:+: t := by
  induction t with
  | nil =>
    rw [List.infix_nil]
    rintro rfl
    cases h
  | cons c t ih =>
    rw [Text.splitAtWord] at h
    split at h
    · cases h
    · rename_i hnot
      rw [Option.map_eq_none_iff] at h
      rw [List.infix_cons_iff, ← List.isPrefixOf_iff_prefix]
      rintro (hstart | hlater)
      · exact hnot hstart
      · exact ih h hlater

/-! ## Single tokens -/

namespace Literal

theorem begins_of_readQuoted {rest : Text} {quote : Char} {f : Fault} (mark : Text)
    (hquote : quote ∈ ['"', '\'']) (hmark : mark ∈ quoteMarks quote)
    (h : readQuoted (mark ++ [quote]) quote rest = .error f) : f.Begins (mark ++ quote :: rest) := by
  unfold readQuoted at h
  split at h
  · rename_i hbody
    cases h
    refine .literal hquote hmark (not_quoted_of_quotedBody ?_ hbody)
    rintro rfl
    simp at hquote
  · cases h

theorem begins_of_readRaw {t : Text} {f : Fault} (mark : Text)
    (hmark : mark ∈ [['r'], ['b', 'r'], ['c', 'r']]) (h : readRaw mark t = .error f) :
    f.Begins (mark ++ t) := by
  unfold readRaw at h
  split at h
  · cases h
  rename_i hashes body hopening
  split at h
  · rename_i hsplit
    cases h
    rw [← rawOpening_append hopening]
    exact .raw hmark (not_infix_of_splitAtWord hsplit)
  · cases h

theorem begins_of_readMarked {t : Text} {f : Fault} (h : readMarked t = .error f) : f.Begins t := by
  unfold readMarked at h
  split at h
  · exact begins_of_readRaw ['b', 'r'] (by simp) h
  · exact begins_of_readRaw ['c', 'r'] (by simp) h
  · exact begins_of_readRaw ['r'] (by simp) h
  · exact begins_of_readQuoted ['b'] (by simp) (by decide) (error_of_map h)
  · exact begins_of_readQuoted ['c'] (by simp) (by decide) (error_of_map h)
  · exact begins_of_readQuoted ['b'] (by simp) (by decide) (error_of_map h)
  · cases h

end Literal

namespace Atom

theorem begins_of_readDoc {marker : DocMarker} {t : Text} {f : Fault}
    (hopens : opensDoc (marker.opening ++ t) = true) (h : readDoc marker t = .error f) :
    f.Begins (marker.opening ++ t) := by
  unfold readDoc at h
  split at h
  · cases h
  rename_i hline
  split at h
  · rename_i hbody
    cases h
    obtain ⟨c, hopening, hmark⟩ : ∃ c, marker.opening = ['/', '*', c] ∧
        startsMark (c :: t) = false := by
      cases marker with
      | outerLine => exact absurd rfl hline
      | innerLine => exact absurd rfl hline
      | outerBlock => exact ⟨'*', rfl, opensDoc_block_star hopens⟩
      | innerBlock => exact ⟨'!', rfl, by simp [startsMark, List.isPrefixOf]⟩
    have hnone : blockBody 0 (c :: t) = none := by
      rw [blockBody_cons hmark, hbody]
      rfl
    rw [hopening]
    exact .comment (not_closes_of_blockBody hnone)
  · cases h

theorem begins_of_readApostrophe {t : Text} {f : Fault} (h : readApostrophe t = .error f) :
    f.Begins ('\'' :: t) := by
  unfold readApostrophe at h
  split at h
  · cases h
    exact @Fault.Begins.quote []
  rename_i c more
  split at h
  · exact Literal.begins_of_readQuoted [] (by simp) (by decide) (error_of_map h)
  split at h
  · cases h
  · cases h
    exact @Fault.Begins.quote (c :: more)

theorem begins_of_read {c : Char} {t : Text} {f : Fault} (h : read c t = .error f) :
    f.Begins (c :: t) := by
  unfold read at h
  split at h
  · rename_i marker after hmarker
    have hopens : opensDoc (c :: t) = true := by rw [← isSome_docMarker, hmarker]; rfl
    rw [← DocMarker.read_append hmarker] at hopens ⊢
    exact begins_of_readDoc hopens h
  split at h
  · unfold readWord at h
    split at h
    · rename_i hmarked
      cases h
      exact Literal.begins_of_readMarked hmarked
    · cases h
    · cases h
  split at h
  · cases h
  split at h
  · rename_i hc
    rw [hc]
    exact begins_of_readApostrophe h
  split at h
  · rename_i hc
    rw [hc]
    exact Literal.begins_of_readQuoted [] (by simp) (by decide) (error_of_map h)
  split at h
  · cases h
  · cases h
    exact .character

end Atom

/-- A token that cannot be read is at fault where it starts. -/
theorem Glyph.begins_of_read {c : Char} {t : Text} {f : Fault} (h : read c t = .error f) :
    f.Begins (c :: t) := by
  unfold read at h
  split at h
  · cases h
  split at h
  · cases h
  split at h
  · rename_i hatom
    cases h
    exact Atom.begins_of_read hatom
  · cases h

/-! ## Trivia -/

namespace Trivia

theorem begins_of_next {t : Text} (h : next t = .unterminated) :
    Fault.commentUnterminated.Begins t := by
  unfold next at h
  split at h
  · cases h
  split at h
  · cases h
  split at h
  · cases h
  split at h
  · cases h
  · split at h
    · cases h
    · rename_i hbody
      exact .comment (not_closes_of_blockBody hbody)
  · cases h

/-- Trivia cannot be read if it leads to a comment that does not end. -/
theorem exists_of_read_error {p : Position} {t : Text} {d : Diagnostic} (h : read p t = .error d) :
    ∃ trivia rest, t = trivia ++ rest ∧ Plain rest trivia ∧
      d = .lexical .commentUnterminated (p.after trivia) ∧ next rest = .unterminated := by
  fun_induction read p t with
  | case1 => cases h
  | case2 p t hnext =>
    cases h
    exact ⟨[], t, rfl, .nil, rfl, hnext⟩
  | case3 p t text rest hnext d' hread ih =>
    cases h
    obtain ⟨trivia, rest', rfl, hplain, hd, hopen⟩ := ih hread
    refine ⟨text ++ trivia, rest', ?_, hplain.cons (made_of_next hnext), ?_, hopen⟩
    · rw [← next_append hnext, List.append_assoc]
    · rw [hd, Position.after_append]
  | case4 => cases h

/-- Trivia that cannot be read is at fault where the comment starts. -/
theorem begins_of_read {p : Position} {t : Text} {d : Diagnostic} (h : read p t = .error d) :
    ∃ trivia rest, t = trivia ++ rest ∧ Plain rest trivia ∧
      d = .lexical .commentUnterminated (p.after trivia) ∧
      Fault.commentUnterminated.Begins rest := by
  obtain ⟨trivia, rest, ht, hplain, hd, hopen⟩ := exists_of_read_error h
  exact ⟨trivia, rest, ht, hplain, hd, begins_of_next hopen⟩

/-- The marks of interpreter lines, one behind the other. -/
def shebangMarks (k : Nat) : Text :=
  (List.replicate k ['#', '!']).flatten

/-- Where the judgement of an interpreter line fails. It is made of the text behind some marks, and
places are counted from there. -/
theorem begins_of_readShebang {t : Text} {d : Diagnostic} (h : readShebang t = .error d) :
    ∃ k line trivia rest, 0 < k ∧ t = shebangMarks k ++ (line ++ (trivia ++ rest)) ∧
      (line = [] ∨ IsShebang line (trivia ++ rest)) ∧ Plain rest trivia ∧
      d = .lexical .commentUnterminated (Position.start.after (line ++ trivia)) ∧
      Fault.commentUnterminated.Begins rest := by
  fun_induction readShebang t with
  | case1 more d' hline ih =>
    -- the text behind the mark could not be judged, so that one more mark is not counted
    cases h
    obtain ⟨k, line, trivia, rest, -, rfl, hrest⟩ := ih hline
    exact ⟨k + 1, line, trivia, rest, Nat.succ_pos k, by simp [shebangMarks, List.replicate_succ],
      hrest⟩
  | case2 more line rest hline d' hread ih =>
    cases h
    obtain ⟨trivia, rest', rfl, hplain, hd, hbegins⟩ := begins_of_read hread
    refine ⟨1, line, trivia, rest', Nat.one_pos, ?_, isShebang_of_readShebang hline, hplain, ?_,
      hbegins⟩
    · rw [readShebang_append hline]
      rfl
    · rw [hd, Position.after_append]
  | case3 => cases h
  | case4 => cases h
  | case5 => cases h

end Trivia

/-! ## Places in a text -/

/-- Somewhere in a text that stands at `p`, and there at `q`, what follows has a property. -/
def Text.HoldsAt (p : Position) (t : Text) (q : Position) (property : Text → Prop) : Prop :=
  ∃ before rest, t = before ++ rest ∧ q = p.after before ∧ property rest

theorem Text.HoldsAt.behind {p q : Position} {t : Text} {property : Text → Prop} {front : Text}
    (h : HoldsAt (p.after front) t q property) : HoldsAt p (front ++ t) q property := by
  obtain ⟨before, rest, rfl, hq, hrest⟩ := h
  exact ⟨front ++ before, rest, by rw [List.append_assoc], by rw [hq, Position.after_append], hrest⟩

namespace Lexing

/-- Lexemes stand where they are recorded, and lexing stops at a fault where it is. -/
theorem scan_places (p : Position) (t : Text) :
    (∀ l ∈ (scan p t).lexemes, t.HoldsAt p l.pos (l.glyph.text <+: ·)) ∧
      ∀ d, (scan p t).ending = .error d → t.HoldsAt p d.pos d.fault.Begins := by
  fun_induction scan p t with
  | case1 p t d hread =>
    refine ⟨by simp, fun d' hd => ?_⟩
    cases hd
    obtain ⟨trivia, rest, rfl, -, rfl, hbegins⟩ := Trivia.begins_of_read hread
    exact ⟨trivia, rest, rfl, rfl, hbegins⟩
  | case2 p t leading hread => exact ⟨by simp, by simp⟩
  | case3 p t leading c more hread fault hglyph =>
    refine ⟨by simp, fun d' hd => ?_⟩
    cases hd
    exact ⟨leading, c :: more, (Trivia.read_append hread).symm, rfl, Glyph.begins_of_read hglyph⟩
  | case4 p t leading c more hread glyph rest hglyph next ih =>
    obtain ⟨hlexemes, hending⟩ := ih
    have ht : leading ++ (glyph.text ++ rest) = t := by
      rw [Glyph.read_append hglyph, Trivia.read_append hread]
    subst ht
    refine ⟨fun l hl => ?_, fun d hd => (hending d hd).behind.behind⟩
    rcases List.mem_cons.1 hl with rfl | hl
    · exact ⟨leading, glyph.text ++ rest, rfl, rfl, List.prefix_append _ _⟩
    · exact (hlexemes l hl).behind.behind

/-- The same of a whole text, if its interpreter line can be judged. -/
theorem ofText_places {t line rest : Text} (h : Trivia.readShebang t = .ok (line, rest)) :
    (∀ l ∈ (ofText t).lexemes, t.HoldsAt .start l.pos (l.glyph.text <+: ·)) ∧
      ∀ d, (ofText t).ending = .error d → t.HoldsAt .start d.pos d.fault.Begins := by
  obtain ⟨hlexemes, hending⟩ := scan_places (Position.start.after line) rest
  have hofText : ofText t = (scan (Position.start.after line) rest).prepend line := by
    rw [ofText, h]
  rw [hofText, ← Trivia.readShebang_append h]
  cases hscan : scan (Position.start.after line) rest with
  | mk lexemes ending =>
    rw [hscan] at hlexemes hending
    cases lexemes with
    | nil =>
      refine ⟨by simp [prepend], fun d hd => (hending d ?_).behind⟩
      cases ending with
      | error d' => exact hd
      | ok trailing => cases hd
    | cons first more =>
      refine ⟨fun l hl => ?_, fun d hd => (hending d hd).behind⟩
      rcases List.mem_cons.1 hl with rfl | hl
      · exact (hlexemes first List.mem_cons_self).behind
      · exact (hlexemes l (List.mem_cons_of_mem _ hl)).behind

end Lexing

/-! ## Brackets -/

/-- The bracket that is reported for a fault. -/
inductive Fault.Blames : Fault → Glyph → Prop where
  | closing {d : Delimiter} {innermost : Option Delimiter} :
      Blames (.delimiterUnbalanced d innermost) (.closing d)
  | opening {d : Delimiter} : Blames (.delimiterUnclosed d) (.opening d)

theorem Fault.Blames.begins {f : Fault} {g : Glyph} {t : Text} (h : f.Blames g)
    (ht : g.text <+: t) : f.Begins t := by
  obtain ⟨rest, rfl⟩ := ht
  cases h with
  | closing => exact .unbalanced
  | opening => exact .unclosed

/-- Matching brackets fails with the fault at the end of the lexemes, or at one of their brackets. -/
theorem Nesting.blames_of_build (stands : Glyph → Position → Prop) {stack : List Open}
    {done : List Token} {lexemes : List Lexeme} {ending : Except Diagnostic Text} {d : Diagnostic}
    (hstack : ∀ o ∈ stack, stands (.opening o.delimiter) o.pos)
    (hlexemes : ∀ l ∈ lexemes, stands l.glyph l.pos)
    (h : build stack done lexemes ending = .error d) :
    ending = .error d ∨ ∃ g, d.fault.Blames g ∧ stands g d.pos := by
  fun_induction build stack done lexemes ending with
  | case1 stack done d' =>
    cases h
    exact .inl rfl
  | case2 => cases h
  | case3 done trailing innermost outer =>
    cases h
    exact .inr ⟨_, .opening, hstack innermost List.mem_cons_self⟩
  | case4 stack done leading pos a rest ending ih =>
    exact ih hstack (fun l hl => hlexemes l (List.mem_cons_of_mem _ hl)) h
  | case5 stack done leading pos d rest ending ih =>
    refine ih (fun o ho => ?_) (fun l hl => hlexemes l (List.mem_cons_of_mem _ hl)) h
    rcases List.mem_cons.1 ho with rfl | ho
    · exact hlexemes _ List.mem_cons_self
    · exact hstack o ho
  | case6 =>
    cases h
    exact .inr ⟨_, .closing, hlexemes _ List.mem_cons_self⟩
  | case7 done leading pos rest ending innermost outer group ih =>
    exact ih (fun o ho => hstack o (List.mem_cons_of_mem _ ho))
      (fun l hl => hlexemes l (List.mem_cons_of_mem _ hl)) h
  | case8 =>
    cases h
    exact .inr ⟨_, .closing, hlexemes _ List.mem_cons_self⟩

/-- A text whose interpreter line can be judged is reported where the part at fault starts. -/
theorem holdsAt_of_tokenize {t line rest : Text} {d : Diagnostic}
    (hline : Trivia.readShebang t = .ok (line, rest)) (h : tokenize t = .error d) :
    t.HoldsAt .start d.pos d.fault.Begins := by
  obtain ⟨hlexemes, hending⟩ := Lexing.ofText_places hline
  rcases Nesting.blames_of_build (fun g pos => t.HoldsAt .start pos (g.text <+: ·)) (by simp)
    hlexemes h with hd | ⟨g, hg, before, rest, ht, hpos, hrest⟩
  · exact hending d hd
  · exact ⟨before, rest, ht, hpos, hg.begins hrest⟩

/-! ## Columns -/

namespace Position

/-- Behind a line feed columns are counted anew. -/
theorem after_eq_of_mem {t : Text} (h : '\n' ∈ t) {p q : Position} (hline : p.line = q.line) :
    p.after t = q.after t := by
  induction t generalizing p q with
  | nil => cases h
  | cons c t ih =>
    rw [after_cons, after_cons]
    by_cases hc : c = '\n'
    · simp only [step, hc, ↓reduceIte, hline]
    · have ht : '\n' ∈ t := (List.mem_cons.1 h).resolve_left (Ne.symm hc)
      exact ih ht (by simp [step, hc, hline])

theorem after_eq_of_not_mem {t : Text} (h : '\n' ∉ t) (p : Position) :
    p.after t = ⟨p.line, p.col + t.length⟩ := by
  induction t generalizing p with
  | nil => rfl
  | cons c t ih =>
    rw [List.mem_cons, not_or] at h
    rw [after_cons, ih h.2, step, if_neg (Ne.symm h.1)]
    simp only [List.length_cons, mk.injEq, true_and]
    omega

end Position

namespace Trivia

theorem length_shebangMarks (k : Nat) : (shebangMarks k).length = 2 * k := by
  simp [shebangMarks, Nat.mul_comm]

theorem not_mem_shebangMarks (k : Nat) : '\n' ∉ shebangMarks k := by
  simp [shebangMarks, List.mem_replicate]

/-- Between an interpreter line and a comment the line ends. -/
theorem IsShebang.mem_trivia {line trivia rest : Text}
    (h : IsShebang line (trivia ++ '/' :: rest)) : '\n' ∈ trivia := by
  obtain ⟨-, -, hend, -⟩ := h
  rcases trivia with _ | ⟨c, _ | ⟨d, trivia⟩⟩
  · simp [lineEnds] at hend
  · simpa [lineEnds, eq_comm] using hend
  · simp only [List.cons_append, lineEnds, List.head?_cons, Option.some.injEq, Bool.or_eq_true,
      Bool.and_eq_true, decide_eq_true_eq] at hend
    rcases hend with rfl | ⟨-, rfl⟩ <;> simp

end Trivia

/-- The report of a comment that does not end, at the offset `i` of the first line, behind `k` marks
of interpreter lines and trivia: its column is too small by the length of the marks. -/
structure Diagnostic.Shifted (d : Diagnostic) (t : Text) (i k : Nat) : Prop where
  marked : 0 < k
  comment : d.fault = .commentUnterminated
  front : ∃ trivia, t.take i = Trivia.shebangMarks k ++ trivia ∧ Trivia.Plain (t.drop i) trivia
  firstLine : '\n' ∉ t.take i
  place : Position.ofOffset t i = ⟨d.pos.line, d.pos.col + 2 * k⟩

/-- The report of an interpreter line that cannot be judged. -/
theorem Trivia.place_of_readShebang {t : Text} {d : Diagnostic} (h : readShebang t = .error d) :
    ∃ i, d.fault.Begins (t.drop i) ∧ (d.pos = .ofOffset t i ∨ ∃ k, d.Shifted t i k) := by
  obtain ⟨k, line, trivia, rest, hk, ht, hshebang, hplain, rfl, hbegins⟩ := begins_of_readShebang h
  rw [← List.append_assoc, ← List.append_assoc] at ht
  have hdrop : t.drop (shebangMarks k ++ line ++ trivia).length = rest := by
    rw [ht, List.drop_left]
  have hplace : Position.ofOffset t (shebangMarks k ++ line ++ trivia).length =
      (⟨1, 1 + 2 * k⟩ : Position).after (line ++ trivia) := by
    rw [← Position.after_eq_ofOffset ht, List.append_assoc, Position.after_append,
      Position.after_eq_of_not_mem (not_mem_shebangMarks k), length_shebangMarks]
    rfl
  refine ⟨(shebangMarks k ++ line ++ trivia).length, hdrop ▸ hbegins, ?_⟩
  by_cases hfeed : '\n' ∈ line ++ trivia
  · rw [hplace]
    exact .inl (Position.after_eq_of_mem hfeed rfl)
  · -- in the first line there is no room for an interpreter line in front of the comment
    obtain rfl : line = [] := by
      rcases hshebang with hnil | hshebang
      · exact hnil
      · cases hbegins with
        | comment => exact absurd (List.mem_append_right line hshebang.mem_trivia) hfeed
    rw [List.append_nil] at hdrop hplace ht ⊢
    have htake : t.take (shebangMarks k ++ trivia).length = shebangMarks k ++ trivia := by
      rw [ht, List.take_left]
    refine .inr ⟨k, hk, rfl, ⟨trivia, htake, hdrop ▸ hplain⟩, ?_, ?_⟩
    · rw [htake, List.mem_append, not_or]
      exact ⟨not_mem_shebangMarks k, hfeed⟩
    · rw [List.nil_append] at hplace hfeed
      rw [hplace, Position.after_eq_of_not_mem hfeed]
      simp only [Diagnostic.lexical, List.nil_append, Position.after_eq_of_not_mem hfeed,
        Position.start, Position.mk.injEq, true_and]
      omega

/-- Every text that cannot be read is reported where the part at fault starts, with its line and
column. Only a comment that does not end, in the first line behind marks of interpreter lines, is
reported too far to the left, by the length of these marks. -/
theorem tokenize_fault_place {t : Text} {d : Diagnostic} (h : tokenize t = .error d) :
    ∃ i, d.fault.Begins (t.drop i) ∧ (d.pos = .ofOffset t i ∨ ∃ k, d.Shifted t i k) := by
  cases hline : Trivia.readShebang t with
  | ok result =>
    obtain ⟨before, rest, rfl, hpos, hbegins⟩ := holdsAt_of_tokenize hline h
    refine ⟨before.length, ?_, .inl ?_⟩
    · rw [List.drop_left]
      exact hbegins
    · rw [hpos, Position.after_eq_ofOffset rfl]
  | error d' =>
    obtain rfl : d' = d := by
      rw [tokenize, Lexing.ofText, hline] at h
      exact Except.error.inj h
    exact Trivia.place_of_readShebang hline

/-- A raw string without its end behind an interpreter line and a comment of two lines. -/
theorem tokenize_fault_place_raw :
    let t : Text := "#!a\nf(/* (\n */ r#\"x\")"
    let d : Diagnostic := .lexical (.rawUnterminated 1) ⟨3, 5⟩
    tokenize t = .error d ∧
      ∃ i, d.fault.Begins (t.drop i) ∧ (d.pos = .ofOffset t i ∨ ∃ k, d.Shifted t i k) := by
  intro t d
  have h : tokenize t = .error d := lexicalFault_eq_some_iff.1 (by decide +kernel)
  exact ⟨h, tokenize_fault_place h⟩

/-- A comment that is opened behind the mark of an interpreter line is reported in the first column
of the text. It starts in the third one, and nowhere in the first. -/
theorem tokenize_fault_misplaced :
    let t : Text := "#!/*"
    tokenize t = .error (.lexical .commentUnterminated ⟨1, 1⟩) ∧
      Position.ofOffset t 2 = ⟨1, 3⟩ ∧ ['/', '*'] <+: t.drop 2 ∧
      ¬ ∃ i, Position.ofOffset t i = ⟨1, 1⟩ ∧ ['/', '*'] <+: t.drop i := by
  intro t
  refine ⟨lexicalFault_eq_some_iff.1 (by decide +kernel), by decide +kernel, by decide +kernel, ?_⟩
  rintro ⟨i, hpos, hcomment⟩
  have ht : t = ['#', '!', '/', '*'] := by decide +kernel
  rw [ht] at hpos hcomment
  rcases i with _ | _ | _ | _ | i
  · exact absurd hcomment (by decide)
  · exact absurd hpos (by decide)
  · exact absurd hpos (by decide)
  · exact absurd hpos (by decide)
  · rw [List.drop_of_length_le (by simp)] at hcomment
    exact absurd hcomment (by decide)

end CondAttrs
